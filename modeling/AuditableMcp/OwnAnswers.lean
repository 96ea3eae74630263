import AuditableMcp.EventOrder
import AuditableMcp.SessionBooks
/-!
# An attempt is answered by its own round, or on its own id, at most once (`mcp/seam.py:971-1197`)

What the seam keeps of the answers (`AnswerBooks`): the attempts, the rounds that are out, the request ids given, and
the frames that came in. `Kept` says that a round still out has seen no retry, that an id still pending has seen no
answer, and so that what settled an attempt was the first of these (`Sourced`), or unavailability.
-/
namespace AuditableMcp

open JsonValue

/-! ## Frames that answer -/

/-- The token a `tools/call` presents. -/
def presented : Frame → Option Str
  | .request _ method params => if method == TOOLS_CALL_METHOD then ToolSeam.presents (params.getD []) else none
  | _ => none

def paramsOf : Frame → Members
  | .request _ _ params => params.getD []
  | _ => []

/-- This is the first frame from `since` on that is such, and it came before the limit. -/
structure FirstFrom (inbox : List Frame) (q : Frame → Bool) (since limit place : Nat) (f : Frame) : Prop where
  came : inbox[place]? = some f
  lower : since ≤ place
  upper : place < limit
  holds : q f = true
  first : ∀ k, since ≤ k → k < place → ∀ g, inbox[k]? = some g → q g = false

theorem FirstFrom.mono {inbox later : List Frame} {q : Frame → Bool} {since limit limit' place : Nat} {f : Frame}
    (h : FirstFrom inbox q since limit place f) (hlater : inbox <+: later) (hlimit : limit ≤ limit') :
    FirstFrom later q since limit' place f := by
  have hplace : place < inbox.length := (List.getElem?_eq_some_iff.1 h.came).1
  have hsame : ∀ k ≤ place, later[k]? = inbox[k]? := by
    obtain ⟨rest, rfl⟩ := hlater
    intro k hk
    exact List.getElem?_append_left (by omega)
  refine ⟨(hsame place le_rfl).trans h.came, h.lower, Nat.lt_of_lt_of_le h.upper hlimit, h.holds, ?_⟩
  intro k hlower hk g hg
  exact h.first k hlower hk g ((hsame k (Nat.le_of_lt hk)).symm.trans hg)

/-- No frame from `since` on is such. -/
def Silent (inbox : List Frame) (q : Frame → Bool) (since : Nat) : Prop :=
  ∀ k, since ≤ k → ∀ g, inbox[k]? = some g → q g = false

theorem Silent.next {inbox : List Frame} {q : Frame → Bool} {since : Nat} {f : Frame} (h : Silent inbox q since)
    (hf : q f = false) : Silent (inbox ++ [f]) q since := by
  intro k hk g hg
  rw [List.getElem?_append] at hg
  split at hg
  · exact h k hk g hg
  · obtain ⟨-, rfl⟩ : k - inbox.length = 0 ∧ f = g := by simpa [List.getElem?_singleton] using hg
    exact hf

/-- From now on nothing has come. -/
theorem silent_now (inbox : List Frame) (q : Frame → Bool) : Silent inbox q inbox.length := by
  intro k hk g hg
  rw [List.getElem?_eq_none hk] at hg
  cases hg

/-- The next frame is the first such, where none was before. -/
theorem FirstFrom.next {inbox : List Frame} {q : Frame → Bool} {since : Nat} {f : Frame} (hsince : since ≤ inbox.length)
    (hnone : Silent inbox q since) (hf : q f = true) :
    FirstFrom (inbox ++ [f]) q since (inbox ++ [f]).length inbox.length f := by
  refine ⟨by simp, hsince, by simp, hf, ?_⟩
  intro k hlower hk g hg
  rw [List.getElem?_append_left hk] at hg
  exact hnone k hlower g hg

section
variable {W : World}

/-- The id an attempt is answered under in its round. -/
def PendingAttempt.eventId (p : PendingAttempt W) : Str := ToolSeam.idText W p.event

/-- The first retry that presented the token of the round that carried the attempt named the call's session and answers
the attempt so. -/
def FromRound (session : Nat → Option Str) (issued : List IssuedRound) (inbox : List Frame) (a : Nat)
    (p : PendingAttempt W) (limit : Nat) (r : AttemptResponse W) : Prop :=
  ∃ i ∈ issued, i.call = p.call ∧ i.awaiting.get p.eventId = some a ∧
    ∃ place f, FirstFrom inbox (fun g => presented g == some i.token) i.since limit place f ∧
      ∃ m : AuditRequestMeta W, auditMetaOf (paramsOf f) = some m ∧ session p.call = some m.sessionId ∧
        m.responses.lookup p.eventId = some r

/-- The first answer on the request id the attempt was given is this. -/
def FromAnswer (inbox : List Frame) (p : PendingAttempt W) (limit : Nat) (r : AttemptResponse W) : Prop :=
  ∃ id, p.requestId = some id ∧ ∃ place f,
    FirstFrom inbox (fun g => ToolSeam.answerId g == some id) p.since limit place f ∧ decision f = r

def Sourced (session : Nat → Option Str) (issued : List IssuedRound) (inbox : List Frame) (a : Nat)
    (p : PendingAttempt W) (limit : Nat) (r : AttemptResponse W) : Prop :=
  r = .unavailable ∨ FromRound session issued inbox a p limit r ∨ FromAnswer inbox p limit r

/-- Two views of one attempt, as it was made. -/
def SameMade (p p' : PendingAttempt W) : Prop :=
  p'.call = p.call ∧ p'.event = p.event ∧ p'.requestId = p.requestId ∧ p'.since = p.since

theorem sameMade_settle (r : AttemptResponse W) (p : PendingAttempt W) : SameMade p (p.settle r) := by
  unfold PendingAttempt.settle
  split <;> exact ⟨rfl, rfl, rfl, rfl⟩

theorem SameMade.eventId {p p' : PendingAttempt W} (h : SameMade p p') : p'.eventId = p.eventId := by
  rw [PendingAttempt.eventId, h.2.1, PendingAttempt.eventId]

theorem Sourced.mono {session session' : Nat → Option Str} {issued issued' : List IssuedRound}
    {inbox inbox' : List Frame} {a limit limit' : Nat} {p p' : PendingAttempt W} {r : AttemptResponse W}
    (h : Sourced session issued inbox a p limit r) (hsession : session' p.call = session p.call)
    (hissued : ∀ i ∈ issued, i ∈ issued') (hinbox : inbox <+: inbox') (hmade : SameMade p p') (hlimit : limit ≤ limit') :
    Sourced session' issued' inbox' a p' limit' r := by
  have hid := hmade.eventId
  obtain ⟨hcall, -, hrequest, hsince⟩ := hmade
  refine h.imp_right (Or.imp ?_ ?_)
  · rintro ⟨i, hi, hicall, hget, place, f, hfirst, m, hm, hnamed, hlookup⟩
    refine ⟨i, hissued i hi, hicall.trans hcall.symm, hid ▸ hget, place, f, hfirst.mono hinbox hlimit, m, hm, ?_,
      hid ▸ hlookup⟩
    rw [hcall, hsession, hnamed]
  · rintro ⟨id, hreq, place, f, hfirst, hr⟩
    exact ⟨id, hrequest.trans hreq, place, f, hsince ▸ hfirst.mono hinbox hlimit, hr⟩

end

section
variable {W : World}

theorem Sourced.session {session session' : Nat → Option Str} {issued : List IssuedRound} {inbox : List Frame}
    {a limit : Nat} {p : PendingAttempt W} {r : AttemptResponse W} (h : Sourced session issued inbox a p limit r)
    (hsession : ∀ i ∈ issued, session' i.call = session i.call) : Sourced session' issued inbox a p limit r := by
  refine h.imp_right (Or.imp_left ?_)
  rintro ⟨i, hi, hcall, hget, place, f, hfirst, m, hm, hnamed, hlookup⟩
  refine ⟨i, hi, hcall, hget, place, f, hfirst, m, hm, ?_, hlookup⟩
  rw [← hcall, hsession i hi, hcall, hnamed]

end

structure AnswerBooks (W : World) where
  buffers : Nat → Dict Str Nat
  attempts : Nat → PendingAttempt W
  attemptCount : Nat
  rounds : Dict Str (Nat × OpenRound)
  issued : List IssuedRound
  resumed : List (Str × Nat)
  pending : Dict RequestId Nat
  inbox : List Frame

namespace AnswerBooks

variable {W : World} {b : AnswerBooks W} {session : Nat → Option Str}

/-- An attempt stands under its id in its call's buffer, or in a round of it. -/
def Listed (b : AnswerBooks W) (c : Nat) (d : Dict Str Nat) : Prop :=
  ∀ id a, d.get id = some a → a < b.attemptCount ∧ (b.attempts a).call = c ∧ (b.attempts a).eventId = id

structure Kept (session : Nat → Option Str) (b : AnswerBooks W) : Prop where
  buffered : ∀ c, b.Listed c (b.buffers c)
  carried : ∀ i ∈ b.issued, b.Listed i.call i.awaiting
  /-- No retry has presented the token of a round that is out. -/
  round : ∀ token c r, b.rounds.get token = some (c, r) → ∃ i ∈ b.issued, i.token = token ∧ i.call = c ∧
    i.awaiting = r.awaiting ∧ i.since ≤ b.inbox.length ∧ Silent b.inbox (fun f => presented f == some token) i.since
  unresumed : ∀ token, (b.rounds.get token).isSome → token ∉ b.resumed.map Prod.fst
  /-- No answer has come on a request id that is pending. -/
  pending : ∀ id a, b.pending.get id = some a → a < b.attemptCount ∧ (b.attempts a).requestId = some id ∧
    id.isSeams = true ∧ (b.attempts a).since ≤ b.inbox.length ∧
      Silent b.inbox (fun f => ToolSeam.answerId f == some id) (b.attempts a).since
  responded : ∀ a < b.attemptCount, ∀ r, (b.attempts a).response = some r →
    Sourced session b.issued b.inbox a (b.attempts a) b.inbox.length r
  returned : ∀ a < b.attemptCount, ∀ r, (b.attempts a).returned = some r →
    Sourced session b.issued b.inbox a (b.attempts a) (b.attempts a).returnedAt r
  resumes : ∀ e ∈ b.resumed, ∃ i ∈ b.issued, i.token = e.1 ∧ i.since ≤ e.2
  once : (b.resumed.map Prod.fst).Nodup

/-! ## What comes in -/

/-- A frame that presents no token of a round that is out, and answers no pending request. -/
theorem Kept.hear (h : b.Kept session) {f : Frame} (htoken : ∀ token, presented f = some token → b.rounds.get token = none)
    (hanswer : ∀ id, ToolSeam.answerId f = some id → b.pending.get id = none) :
    ({ b with inbox := b.inbox ++ [f] } : AnswerBooks W).Kept session := by
  have hgrow : b.inbox <+: b.inbox ++ [f] := List.prefix_append _ _
  have hlength : b.inbox.length ≤ (b.inbox ++ [f]).length := by simp
  refine ⟨h.buffered, h.carried, ?_, h.unresumed, ?_, ?_, ?_, h.resumes, h.once⟩
  · intro token c r hget
    obtain ⟨i, hi, htok, hcall, hawaiting, hsince, hfirst⟩ := h.round token c r hget
    refine ⟨i, hi, htok, hcall, hawaiting, hsince.trans hlength, hfirst.next ?_⟩
    refine beq_false_of_ne fun hpresented => ?_
    rw [htoken token hpresented] at hget
    cases hget
  · intro id a hget
    obtain ⟨hlt, hreq, hseams, hsince, hfirst⟩ := h.pending id a hget
    refine ⟨hlt, hreq, hseams, hsince.trans hlength, hfirst.next ?_⟩
    refine beq_false_of_ne fun hanswers => ?_
    rw [hanswer id hanswers] at hget
    cases hget
  · intro a ha r hr
    exact (h.responded a ha r hr).mono rfl (fun _ hi => hi) hgrow ⟨rfl, rfl, rfl, rfl⟩ hlength
  · intro a ha r hr
    exact (h.returned a ha r hr).mono rfl (fun _ hi => hi) hgrow ⟨rfl, rfl, rfl, rfl⟩ le_rfl

/-! ## Answers -/

/-- The attempts are the same, with what has answered them. -/
structure Answers (session : Nat → Option Str) (b : AnswerBooks W) (attempts : Nat → PendingAttempt W) : Prop where
  made : ∀ a, SameMade (b.attempts a) (attempts a)
  responded : ∀ a < b.attemptCount, ∀ r, (attempts a).response = some r →
    Sourced session b.issued b.inbox a (b.attempts a) b.inbox.length r
  returned : ∀ a < b.attemptCount, ∀ r, (attempts a).returned = some r →
    Sourced session b.issued b.inbox a (b.attempts a) (attempts a).returnedAt r

theorem Kept.answer (h : b.Kept session) {attempts : Nat → PendingAttempt W} (ha : Answers session b attempts) :
    ({ b with attempts } : AnswerBooks W).Kept session := by
  have hlisted : ∀ c d, b.Listed c d → ({ b with attempts } : AnswerBooks W).Listed c d := by
    intro c d hd id a hget
    obtain ⟨hlt, hcall, hid⟩ := hd id a hget
    exact ⟨hlt, (ha.made a).1.trans hcall, (ha.made a).eventId.trans hid⟩
  refine ⟨fun c => hlisted c _ (h.buffered c), fun i hi => hlisted _ _ (h.carried i hi), h.round, h.unresumed, ?_, ?_, ?_,
    h.resumes, h.once⟩
  · intro id a hget
    obtain ⟨hlt, hreq, hseams, hsince, hsilent⟩ := h.pending id a hget
    obtain ⟨-, -, hrequest, hmade⟩ := ha.made a
    exact ⟨hlt, hrequest.trans hreq, hseams, hmade ▸ hsince, hmade ▸ hsilent⟩
  · intro a hlt r hr
    exact (ha.responded a hlt r hr).mono rfl (fun _ hi => hi) (List.prefix_refl _) (ha.made a) le_rfl
  · intro a hlt r hr
    exact (ha.returned a hlt r hr).mono rfl (fun _ hi => hi) (List.prefix_refl _) (ha.made a) le_rfl

theorem sameMade_settleAll (answers : List (Nat × AttemptResponse W)) (attempts : Nat → PendingAttempt W) (a : Nat) :
    SameMade (attempts a) (settleAll answers attempts a) ∧
      (settleAll answers attempts a).returned = (attempts a).returned ∧
      (settleAll answers attempts a).returnedAt = (attempts a).returnedAt := by
  rw [settleAll_apply]
  cases answers.lookup a with
  | none => exact ⟨⟨rfl, rfl, rfl, rfl⟩, rfl, rfl⟩
  | some r =>
    simp only [Option.elim_some, PendingAttempt.settle]
    split <;> exact ⟨⟨rfl, rfl, rfl, rfl⟩, rfl, rfl⟩

/-- The answers have a source, each its own. -/
theorem Kept.settle (h : b.Kept session) {answers : List (Nat × AttemptResponse W)}
    (hsource : ∀ a < b.attemptCount, ∀ r, (a, r) ∈ answers →
      Sourced session b.issued b.inbox a (b.attempts a) b.inbox.length r) :
    ({ b with attempts := settleAll answers b.attempts } : AnswerBooks W).Kept session := by
  refine h.answer ⟨fun a => (sameMade_settleAll answers b.attempts a).1, ?_, ?_⟩
  · intro a hlt r hr
    rw [settleAll_apply] at hr
    cases hlookup : answers.lookup a with
    | none =>
      rw [hlookup] at hr
      exact h.responded a hlt r hr
    | some given =>
      rw [hlookup, Option.elim_some, PendingAttempt.settle] at hr
      split at hr
      · obtain rfl := Option.some.inj hr
        obtain ⟨before, after, rfl, -⟩ := List.lookup_eq_some_iff.1 hlookup
        exact hsource a hlt given (by simp)
      · exact h.responded a hlt r hr
  · intro a hlt r hr
    obtain ⟨-, hreturned, hplace⟩ := sameMade_settleAll answers b.attempts a
    rw [hplace]
    exact h.returned a hlt r (hreturned.symm.trans hr)

theorem Kept.unavailable (h : b.Kept session) (l : List Nat) :
    ({ b with attempts := settleAll (ToolSeam.unanswered l) b.attempts } : AnswerBooks W).Kept session := by
  refine h.settle fun a _ r hr => .inl ?_
  obtain ⟨k, -, heq⟩ := List.mem_map.1 hr
  exact (congrArg Prod.snd heq).symm

def setAttempt (a : Nat) (p : PendingAttempt W) (b : AnswerBooks W) : AnswerBooks W :=
  { b with attempts := Function.update b.attempts a p }

/-- An attempt's wait ends: what it returns is what settled it, or that it is unavailable. -/
theorem Kept.returns (h : b.Kept session) {a : Nat} {p : PendingAttempt W} (hmade : SameMade (b.attempts a) p)
    (hresponse : ∀ r, p.response = some r → r = .unavailable ∨ (b.attempts a).response = some r)
    (hreturned : ∀ r, p.returned = some r → r = .unavailable ∨ (b.attempts a).response = some r)
    (hplace : p.returnedAt = b.inbox.length) : (b.setAttempt a p).Kept session := by
  have hother : ∀ k, k ≠ a → Function.update b.attempts a p k = b.attempts k := fun k hk => Function.update_of_ne hk _ _
  refine h.answer ⟨?_, ?_, ?_⟩
  · intro k
    by_cases hk : k = a
    · subst hk
      simpa using hmade
    · rw [hother k hk]
      exact ⟨rfl, rfl, rfl, rfl⟩
  · intro k hlt r hr
    by_cases hk : k = a
    · subst hk
      rw [Function.update_self] at hr
      rcases hresponse r hr with hun | hold
      · exact .inl hun
      · exact h.responded k hlt r hold
    · rw [hother k hk] at hr
      exact h.responded k hlt r hr
  · intro k hlt r hr
    by_cases hk : k = a
    · subst hk
      rw [Function.update_self] at hr ⊢
      rw [hplace]
      rcases hreturned r hr with hun | hold
      · exact .inl hun
      · exact h.responded k hlt r hold
    · rw [hother k hk] at hr ⊢
      exact h.returned k hlt r hr

/-! ## Attempts and rounds -/

/-- A dictionary of attempts lists them still, when one more is made. -/
theorem Listed.grow {c : Nat} {d : Dict Str Nat} (h : b.Listed c d) (p : PendingAttempt W) :
    ({ b.setAttempt b.attemptCount p with attemptCount := b.attemptCount + 1 } : AnswerBooks W).Listed c d := by
  intro id a hget
  obtain ⟨hlt, hold⟩ := h id a hget
  refine ⟨Nat.lt_succ_of_lt hlt, ?_⟩
  simpa [setAttempt, Nat.ne_of_lt hlt] using hold

/-- An attempt is made, and nothing has answered it. -/
theorem Kept.attempt (h : b.Kept session) {p : PendingAttempt W} (hresponse : p.response = none)
    (hreturned : ∀ r, p.returned = some r → r = .unavailable) (hsince : p.since = b.inbox.length)
    {buffers : Nat → Dict Str Nat} {pending : Dict RequestId Nat}
    (hbuffers : ∀ c id a, (buffers c).get id = some a →
      (b.buffers c).get id = some a ∨ a = b.attemptCount ∧ p.call = c ∧ p.eventId = id)
    (hpending : ∀ id a, pending.get id = some a →
      b.pending.get id = some a ∨ a = b.attemptCount ∧ p.requestId = some id ∧ id.isSeams = true) :
    ({ b.setAttempt b.attemptCount p with attemptCount := b.attemptCount + 1, buffers, pending } :
      AnswerBooks W).Kept session := by
  have hold : ∀ a < b.attemptCount, Function.update b.attempts b.attemptCount p a = b.attempts a := fun a ha =>
    Function.update_of_ne (Nat.ne_of_lt ha) _ _
  refine ⟨?_, fun i hi => (h.carried i hi).grow p, h.round, h.unresumed, ?_, ?_, ?_, h.resumes, h.once⟩
  · intro c id a hget
    rcases hbuffers c id a hget with hget | ⟨rfl, hcall, hid⟩
    · exact (h.buffered c).grow p id a hget
    · exact ⟨Nat.lt_succ_self _, by simpa [setAttempt] using hcall, by simpa [setAttempt] using hid⟩
  · intro id a hget
    rcases hpending id a hget with hget | ⟨rfl, hreq, hseams⟩
    · obtain ⟨hlt, hpend⟩ := h.pending id a hget
      refine ⟨Nat.lt_succ_of_lt hlt, ?_⟩
      simp only [setAttempt, hold a hlt]
      exact hpend
    · refine ⟨Nat.lt_succ_self _, ?_⟩
      simp only [setAttempt, Function.update_self]
      exact ⟨hreq, hseams, Nat.le_of_eq hsince, hsince ▸ silent_now _ _⟩
  · intro a hlt r hr
    by_cases ha : a = b.attemptCount
    · subst ha
      simp only [setAttempt, Function.update_self, hresponse] at hr
      cases hr
    · have hlt : a < b.attemptCount := Nat.lt_of_le_of_ne (Nat.le_of_lt_succ hlt) ha
      simp only [setAttempt, hold a hlt] at hr ⊢
      exact h.responded a hlt r hr
  · intro a hlt r hr
    by_cases ha : a = b.attemptCount
    · subst ha
      simp only [setAttempt, Function.update_self] at hr
      exact .inl (hreturned r hr)
    · have hlt : a < b.attemptCount := Nat.lt_of_le_of_ne (Nat.le_of_lt_succ hlt) ha
      simp only [setAttempt, hold a hlt] at hr ⊢
      exact h.returned a hlt r hr

/-- Buffers are emptied, rounds close, and request ids are no longer waited for. -/
theorem Kept.forget (h : b.Kept session) (buffers : Nat → Dict Str Nat) (rounds : Dict Str (Nat × OpenRound))
    (pending : Dict RequestId Nat) (hbuffers : ∀ c id a, (buffers c).get id = some a → (b.buffers c).get id = some a)
    (hrounds : ∀ token e, rounds.get token = some e → b.rounds.get token = some e)
    (hpending : ∀ id a, pending.get id = some a → b.pending.get id = some a) :
    ({ b with buffers, rounds, pending } : AnswerBooks W).Kept session := by
  refine ⟨fun c id a hget => h.buffered c id a (hbuffers c id a hget), h.carried,
    fun token c r hget => h.round token c r (hrounds token _ hget), ?_,
    fun id a hget => h.pending id a (hpending id a hget), h.responded, h.returned, h.resumes, h.once⟩
  intro token hsome
  obtain ⟨e, he⟩ := Option.isSome_iff_exists.1 hsome
  exact h.unresumed token (by rw [hrounds token e he]; rfl)

/-- A round goes out under a token never drawn before. -/
theorem Kept.sendRound (h : b.Kept session) {token : Str} {c : Nat} (hfresh : ∀ i ∈ b.issued, i.token ≠ token)
    (carried : List Emission) :
    ({ b with
      buffers := Function.update b.buffers c .empty
      rounds := b.rounds.set token (c, ⟨token, b.buffers c⟩)
      issued := b.issued ++ [⟨token, c, b.buffers c, b.inbox.length, carried⟩] } : AnswerBooks W).Kept session := by
  have hgrow : ∀ i ∈ b.issued, i ∈ b.issued ++ [⟨token, c, b.buffers c, b.inbox.length, carried⟩] := fun i hi =>
    List.mem_append_left _ hi
  refine ⟨?_, ?_, ?_, ?_, h.pending, ?_, ?_, ?_, h.once⟩
  · intro d id a hget
    by_cases hd : d = c
    · subst hd
      simp at hget
    · simp only [Function.update_of_ne hd] at hget
      exact h.buffered d id a hget
  · intro i hi
    rcases List.mem_append.1 hi with hi | hi
    · exact h.carried i hi
    · obtain rfl := List.mem_singleton.1 hi
      exact h.buffered c
  · intro other d r hget
    rw [Dict.get_set] at hget
    split at hget
    · next heq =>
      obtain ⟨rfl, rfl⟩ := Prod.mk.injEq .. ▸ Option.some.inj hget
      refine ⟨⟨token, c, b.buffers c, b.inbox.length, carried⟩, by simp, (eq_of_beq heq).symm, rfl, rfl, le_rfl, silent_now _ _⟩
    · obtain ⟨i, hi, hround⟩ := h.round other d r hget
      exact ⟨i, hgrow i hi, hround⟩
  · intro other hsome hresumed
    rw [Dict.get_set] at hsome
    split at hsome
    · next heq =>
      obtain ⟨e, he, hetoken⟩ := List.mem_map.1 hresumed
      obtain ⟨i, hi, htok, -⟩ := h.resumes e he
      exact hfresh i hi (htok.trans (hetoken.trans (eq_of_beq heq)))
    · exact h.unresumed other hsome hresumed
  · intro a hlt r hr
    exact (h.responded a hlt r hr).mono rfl hgrow (List.prefix_refl _) ⟨rfl, rfl, rfl, rfl⟩ le_rfl
  · intro a hlt r hr
    exact (h.returned a hlt r hr).mono rfl hgrow (List.prefix_refl _) ⟨rfl, rfl, rfl, rfl⟩ le_rfl
  · intro e he
    obtain ⟨i, hi, hround⟩ := h.resumes e he
    exact ⟨i, hgrow i hi, hround⟩

/-- The first retry of a round takes its answers, and the round is no more. -/
theorem Kept.accept (h : b.Kept session) {token : Str} {c : Nat} {r : OpenRound} {f : Frame}
    (hround : b.rounds.get token = some (c, r)) (hf : presented f = some token)
    (responses : List (Str × AttemptResponse W))
    (hresponses : ∀ id response, responses.lookup id = some response → ∃ m : AuditRequestMeta W,
      auditMetaOf (paramsOf f) = some m ∧ session c = some m.sessionId ∧ m.responses.lookup id = some response) :
    ({ b with
      rounds := b.rounds.pop token
      resumed := b.resumed ++ [(token, b.inbox.length)]
      inbox := b.inbox ++ [f]
      attempts := settleAll (r.awaiting.items.map fun e => (e.2, (responses.lookup e.1).getD .unavailable))
        b.attempts } : AnswerBooks W).Kept session := by
  obtain ⟨i, hi, htoken, hcall, hawaiting, hsince, hsilent⟩ := h.round token c r hround
  have hrequest : ToolSeam.answerId f = none := by
    unfold presented at hf
    split at hf
    · rfl
    · cases hf
  have hpopped : ({ b with rounds := b.rounds.pop token } : AnswerBooks W).Kept session :=
    h.forget _ _ _ (fun _ _ _ hget => hget) (fun _ _ => Dict.get_of_pop) fun _ _ hget => hget
  have hheard := hpopped.hear (f := f) (fun other hother => by
      obtain rfl := Option.some.inj (hf.symm.trans hother)
      exact Dict.get_pop_self _ _) fun id hid => by
    rw [hrequest] at hid
    cases hid
  have hresumed : ({ b with
      rounds := b.rounds.pop token
      resumed := b.resumed ++ [(token, b.inbox.length)]
      inbox := b.inbox ++ [f] } : AnswerBooks W).Kept session := by
    refine ⟨hheard.buffered, hheard.carried, hheard.round, ?_, hheard.pending, hheard.responded, hheard.returned, ?_, ?_⟩
    · intro other hsome hmem
      rw [List.map_append, List.mem_append] at hmem
      rcases hmem with hmem | hmem
      · exact hheard.unresumed other hsome hmem
      · obtain rfl := List.mem_singleton.1 hmem
        simp at hsome
    · intro e he
      rcases List.mem_append.1 he with he | he
      · exact h.resumes e he
      · obtain rfl := List.mem_singleton.1 he
        exact ⟨i, hi, htoken, hsince⟩
    · rw [List.map_append]
      refine List.nodup_append.2 ⟨h.once, List.nodup_singleton _, ?_⟩
      rintro t ht u hu rfl
      obtain rfl := List.mem_singleton.1 hu
      exact h.unresumed _ (by rw [hround]; rfl) ht
  refine hresumed.settle ?_
  intro a hlt response hmem
  obtain ⟨e, he, heq⟩ := List.mem_map.1 hmem
  obtain ⟨rfl, rfl⟩ := Prod.mk.injEq .. ▸ heq
  cases hlookup : responses.lookup e.1 with
  | none => exact .inl rfl
  | some response =>
    have hget : i.awaiting.get e.1 = some e.2 := by
      rw [hawaiting]
      exact Dict.get_eq_some.2 he
    obtain ⟨-, hmine, hid⟩ := h.carried i hi e.1 e.2 hget
    obtain ⟨m, hm, hnamed, hgiven⟩ := hresponses e.1 response hlookup
    refine .inr (.inl ⟨i, hi, hmine.symm, hid ▸ hget, b.inbox.length, f, ?_, m, hm, ?_, hid ▸ hgiven⟩)
    · rw [htoken]
      exact .next hsince hsilent (by simp [hf])
    · rw [hmine, hcall, hnamed]

/-- The first answer on a request id settles its attempt. -/
theorem Kept.decide (h : b.Kept session) {id : RequestId} {a : Nat} {f : Frame} (hpending : b.pending.get id = some a)
    (hf : ToolSeam.answerId f = some id) :
    ({ b with
      pending := b.pending.pop id
      inbox := b.inbox ++ [f]
      attempts := settleAll [(a, decision f)] b.attempts } : AnswerBooks W).Kept session := by
  obtain ⟨hlt, hreq, -, hsince, hsilent⟩ := h.pending id a hpending
  have hnone : presented f = none := by
    unfold presented
    split
    · cases hf
    · rfl
  have hpopped : ({ b with pending := b.pending.pop id } : AnswerBooks W).Kept session :=
    h.forget _ _ _ (fun _ _ _ hget => hget) (fun _ _ hget => hget) fun _ _ => Dict.get_of_pop
  have hheard := hpopped.hear (f := f) (fun token htoken => by
      rw [hnone] at htoken
      cases htoken) fun other hother => by
    obtain rfl := Option.some.inj (hf.symm.trans hother)
    exact Dict.get_pop_self _ _
  refine hheard.settle ?_
  intro k _ r hmem
  obtain ⟨rfl, rfl⟩ := Prod.mk.injEq .. ▸ List.mem_singleton.1 hmem
  exact .inr (.inr ⟨id, hreq, b.inbox.length, f, .next hsince hsilent (by simp [hf]), rfl⟩)

end AnswerBooks

/-! ## The seam keeps the answers -/

namespace ToolSeam

variable {W : World} {s s' : ToolSeam W} {C : SeamConfig} {session : Nat → Option Str} {inbox : List Frame}

/-- The books, once these frames have come in. -/
def answers (s : ToolSeam W) (inbox : List Frame) : AnswerBooks W where
  buffers := ToolCall.bufferedAwaiting ∘ s.calls
  attempts := s.attempts
  attemptCount := s.attemptCount
  rounds := s.rounds
  issued := s.issued
  resumed := s.resumed
  pending := s.pending
  inbox

theorem answers_updateCall (s : ToolSeam W) (c : Nat) (f : ToolCall → ToolCall) : (s.updateCall c f).answers inbox =
    { s.answers inbox with buffers := Function.update (s.answers inbox).buffers c (f (s.calls c)).bufferedAwaiting } :=
  congrArg (fun buffers => { s.answers inbox with buffers }) (Function.comp_update _ _ _ _)

theorem answers_updateCall_same (s : ToolSeam W) (c : Nat) (f : ToolCall → ToolCall)
    (hf : (f (s.calls c)).bufferedAwaiting = (s.calls c).bufferedAwaiting) :
    (s.updateCall c f).answers inbox = s.answers inbox := by
  rw [answers_updateCall, hf]
  exact congrArg (fun buffers => { s.answers inbox with buffers }) (Function.update_eq_self c (s.answers inbox).buffers)

theorem answers_evictIdle (turns : Nat) : (s.evictIdle turns).answers inbox = s.answers inbox := by
  induction turns generalizing s with
  | zero => rfl
  | succ turns ih =>
    simp only [evictIdle]
    split
    · rfl
    · split
      · exact ih
      · rfl

theorem answers_release (final : Bool) (c : Nat) : (s.release final c).answers inbox = s.answers inbox := by
  unfold release
  split
  · rfl
  · next g _ =>
    have hless : ((s.updateCall c .release).updateSession g fun a => { a with live := a.live - 1 }).answers inbox =
        s.answers inbox := answers_updateCall_same s c .release rfl
    dsimp only
    split
    · rfl
    · split
      · exact hless
      · split
        · exact hless
        · exact (answers_evictIdle _).trans hless

theorem heard_endCall (h : (s.answers inbox).Kept session) (c : Nat) : ((s.endCall c).answers inbox).Kept session := by
  have hforget := (h.unavailable (s.awaited c)).forget
    (Function.update (s.answers inbox).buffers c .empty)
    ((s.calls c).round.elim s.rounds fun r => s.rounds.pop r.token)
    (s.pending.popAll ((s.pending.items.filter fun p => (s.attempts p.2).call == c).map Prod.fst)) ?_ ?_ ?_
  · unfold endCall
    rw [answers_release]
    have hcalls := Function.comp_update ToolCall.bufferedAwaiting s.calls c (s.calls c).drop
    simp only [answers, updateCall, hcalls]
    exact hforget
  · intro d id a hget
    by_cases hd : d = c
    · subst hd
      simp at hget
    · rwa [Function.update_of_ne hd] at hget
  · intro token e hget
    cases hround : (s.calls c).round with
    | none =>
      rw [hround] at hget
      exact hget
    | some out =>
      rw [hround] at hget
      exact Dict.get_of_pop hget
  · intro id a hget
    exact Dict.get_of_popAll hget

theorem heard_evictWaiting (turns : Nat) (h : (s.answers inbox).Kept session) :
    ((s.evictWaiting turns).answers inbox).Kept session := by
  induction turns generalizing s with
  | zero => exact h
  | succ turns ih =>
    simp only [evictWaiting]
    split
    · exact h
    · split
      · exact ih (heard_endCall h _)
      · exact h

theorem heard_keepWaiting (h : (s.answers inbox).Kept session) (frame : Frame) (c : Nat) :
    ((s.keepWaiting frame c).answers inbox).Kept session := by
  have hparked : (s.updateCall c (·.park frame)).answers inbox = s.answers inbox :=
    answers_updateCall_same s c (·.park frame) rfl
  refine heard_evictWaiting _ ?_
  exact (hparked ▸ h : ((s.updateCall c (·.park frame)).answers inbox).Kept session)

/-- What waits for the next round is dropped. -/
theorem heard_keepOnly (h : (s.answers inbox).Kept session) (events : List Emission) (c : Nat) :
    (((s.settle (unanswered (s.calls c).bufferedAwaiting.values)).updateCall c (·.keepOnly events)).answers
      inbox).Kept session := by
  rw [answers_updateCall]
  refine (h.unavailable (s.calls c).bufferedAwaiting.values).forget _ _ _ ?_ (fun _ _ hget => hget) fun _ _ hget => hget
  intro d id a hget
  by_cases hd : d = c
  · subst hd
    simp [ToolCall.keepOnly] at hget
  · rwa [Function.update_of_ne hd] at hget

theorem heard_finalFrame (h : (s.answers inbox).Kept session) (frame : Frame) (c : Nat) :
    ((s.finalFrame frame c).1.answers inbox).Kept session := by
  have hconclude : ∀ outcomes, ((((s.settle (unanswered (s.calls c).bufferedAwaiting.values)).updateCall c
      (·.keepOnly [])).concludeWaiting outcomes c).answers inbox).Kept session := by
    intro outcomes
    have hsame := @answers_updateCall_same _ inbox
      ((s.settle (unanswered (s.calls c).bufferedAwaiting.values)).updateCall c (·.keepOnly [])) c (·.conclude outcomes) rfl
    exact (hsame ▸ heard_keepOnly h [] c : (AnswerBooks.Kept session ((updateCall c (·.conclude outcomes) _).answers inbox)))
  unfold finalFrame
  split
  · exact h
  · dsimp only
    split
    · split
      · exact hconclude []
      · have hscheduled : ∀ t : ToolSeam W, (t.scheduleRound c).answers inbox = t.answers inbox := fun t =>
          answers_updateCall_same t c .schedule rfl
        rw [hscheduled]
        exact heard_keepWaiting (heard_keepOnly h _ c) _ c
    · exact hconclude _
    · exact h

theorem heard_finish (h : (s.answers inbox).Kept session) (frame : Frame) (c : Nat) :
    ((s.finish frame c).1.answers inbox).Kept session := by
  have hleft : ((s.release (!!concludes frame) c).answers inbox).Kept session := (answers_release _ c).symm ▸ h
  unfold finish
  dsimp only
  split
  · rw [answers_updateCall_same _ c .close rfl]
    exact hleft
  · split
    · next r _ => exact heard_keepWaiting (hleft.unavailable r.awaiting.values) frame c
    · exact heard_finalFrame hleft frame c

theorem heard_outbound (h : (s.answers inbox).Kept session) (frame : Frame) :
    ((s.outbound C frame).1.answers inbox).Kept session := by
  have hanswer : ∀ id, ((outbound.answer frame s id).1.answers inbox).Kept session := by
    intro id
    unfold outbound.answer
    split
    · exact h
    · split
      · next c _ =>
        have hfinished : (s.updateCall c .finish).answers inbox = s.answers inbox :=
          answers_updateCall_same s c .finish rfl
        refine heard_finish ?_ frame c
        exact (hfinished ▸ h : ((s.updateCall c .finish).answers inbox).Kept session)
      · exact h
  unfold outbound
  split
  · split
    · exact h
    · exact hanswer _
  · exact hanswer _
  · exact h

theorem heard_deliverFinal (h : (s.answers inbox).Kept session) (frame : Frame) (c : Nat) :
    ((s.deliverFinal frame c).answers inbox).Kept session := by
  have hfinal := heard_finalFrame h frame c
  unfold deliverFinal
  split
  · next heq =>
    rw [heq] at hfinal
    exact hfinal
  · next heq =>
    rw [heq] at hfinal
    exact hfinal

/-- The session the host issued for a call. -/
def hostSession (s : ToolSeam W) (c : Nat) : Option Str := (s.calls c).audit.map fun g => (s.sessions g).sessionId

theorem responsesTo_spec {params : Members} {c : Nat} {id : Str} {r : AttemptResponse W}
    (h : (s.responsesTo params c).lookup id = some r) : ∃ m : AuditRequestMeta W,
      auditMetaOf params = some m ∧ s.hostSession c = some m.sessionId ∧ m.responses.lookup id = some r := by
  unfold responsesTo at h
  split at h
  · next m g hm hg =>
    split at h
    · next hname =>
      refine ⟨m, hm, ?_, h⟩
      rw [hostSession, hg, Option.map_some, eq_of_beq hname]
    · cases h
  · cases h

/-- A request that presents a token, taken in. -/
theorem heard_retry (h : (s.answers s.inbox).Kept s.hostSession) {id : RequestId} {params : Option Members} {token : Str}
    (hf : presented (Frame.request id TOOLS_CALL_METHOD params) = some token) :
    ((s.retry id (params.getD []) token).answers (s.inbox ++ [Frame.request id TOOLS_CALL_METHOD params])).Kept
      s.hostSession := by
  unfold retry
  split
  · next hnone =>
    refine h.hear ?_ fun id hid => by cases hid
    intro other hother
    obtain rfl := Option.some.inj (hf.symm.trans hother)
    exact hnone
  · next c r hround =>
    have haccept := h.accept hround hf (s.responsesTo (params.getD []) c) fun id response hlookup =>
      responsesTo_spec hlookup
    have haccepted : (({ s with
        rounds := s.rounds.pop token
        resumed := s.resumed ++ [(token, s.inbox.length)] }.acceptRetry id (params.getD []) c r).answers
          (s.inbox ++ [Frame.request id TOOLS_CALL_METHOD params])).Kept s.hostSession := by
      unfold acceptRetry
      rw [answers_updateCall_same _ c (·.resumeOn id) rfl]
      exact haccept
    dsimp only
    split
    · exact heard_deliverFinal haccepted _ c
    · exact haccepted

theorem answers_joinSession (declared : Option AuditCapability) (name : Str) :
    (s.joinSession declared name).answers inbox = s.answers inbox := by
  have hfound : (s.findSession declared name).answers inbox = s.answers inbox := by
    unfold findSession
    cases s.tracked.get name <;> rfl
  unfold joinSession
  dsimp only
  split <;> exact hfound

theorem heard_openCall (h : (s.answers inbox).Kept session) (id : RequestId) (params : Members) (ownSessionId : Str) :
    ((s.openCall C id params ownSessionId).answers inbox).Kept session := by
  have hjoined : ((sessionNamed W params).elim s fun name => s.joinSession (s.declaredBy C params) name).answers inbox =
      s.answers inbox := by
    cases sessionNamed W params with
    | none => rfl
    | some name => exact answers_joinSession _ _
  unfold openCall
  dsimp only
  generalize (sessionNamed W params).elim s (fun name => s.joinSession (s.declaredBy C params) name) = joined at hjoined
  rw [← hjoined] at h
  simp only [answers, enrol, Function.comp_update]
  refine h.forget _ _ _ ?_ (fun _ _ hget => hget) fun _ _ hget => hget
  intro d key a hget
  by_cases hd : d = joined.callCount
  · subst hd
    simp at hget
  · rwa [Function.update_of_ne hd] at hget

theorem heard_cancel (h : (s.answers inbox).Kept session) (params : Option Members) :
    ((s.cancel params).1.answers inbox).Kept session := by
  unfold cancel
  dsimp only
  split
  · exact h
  · next c _ =>
    have hdropped : (((s.endCall c).updateCall c (·.cancel s.out.length)).answers inbox).Kept session := by
      rw [answers_updateCall_same _ c (·.cancel s.out.length) rfl]
      exact heard_endCall h c
    split
    · exact hdropped
    · exact hdropped

theorem heard_answerAttempt (h : (s.answers s.inbox).Kept s.hostSession) {id : RequestId} {frame : Frame}
    (hf : answerId frame = some id) :
    ((s.answerAttempt id frame).1.answers (s.inbox ++ [frame])).Kept s.hostSession := by
  have hnone : presented frame = none := by
    unfold presented
    split
    · cases hf
    · rfl
  have hhear : s.pending.get id = none → (s.answers (s.inbox ++ [frame])).Kept s.hostSession := by
    intro hpending
    refine h.hear (fun token htoken => ?_) fun other hother => ?_
    · rw [hnone] at htoken
      cases htoken
    · obtain rfl := Option.some.inj (hf.symm.trans hother)
      exact hpending
  unfold answerAttempt
  split
  · split
    · next hpending => exact hhear hpending
    · next a hpending => exact h.decide hpending hf
  · next hseams =>
    refine hhear (Option.eq_none_iff_forall_ne_some.2 fun a hpending => hseams ?_)
    exact (h.pending id a hpending).2.2.1

theorem presented_handshake {id : RequestId} {method : Str} {params : Option Members}
    (h : HANDSHAKE_METHODS.contains method = true) : presented (.request id method params) = none := by
  have hmethod : (method == TOOLS_CALL_METHOD) = false := by
    refine beq_false_of_ne ?_
    rintro rfl
    exact absurd h (by decide)
  simp [presented, hmethod]

theorem heard_inbound (h : (s.answers s.inbox).Kept s.hostSession) (frame : Frame) (ownSessionId : Str) :
    ((s.inbound C frame ownSessionId).1.answers (s.inbox ++ [frame])).Kept s.hostSession := by
  have hquiet : presented frame = none → answerId frame = none → (s.answers (s.inbox ++ [frame])).Kept s.hostSession := by
    intro hpresented hanswer
    refine h.hear (fun token htoken => ?_) fun id hid => ?_
    · rw [hpresented] at htoken
      cases htoken
    · rw [hanswer] at hid
      cases hid
  cases frame with
  | request id method params =>
    simp only [inbound]
    split
    · next hhandshake =>
      exact hquiet (presented_handshake hhandshake) rfl
    · split
      · next hmethod =>
        obtain rfl := eq_of_beq hmethod
        unfold takeCall
        split
        · next token htoken => exact heard_retry h (by simpa [presented] using htoken)
        · next htoken => exact heard_openCall (hquiet (by simpa [presented] using htoken) rfl) id _ ownSessionId
      · next hmethod => exact hquiet (by simp [presented, hmethod]) rfl
  | notification method params =>
    have hquiet := hquiet rfl rfl
    simp only [inbound]
    split
    · exact heard_cancel hquiet params
    · exact hquiet
  | response id result => exact heard_answerAttempt h rfl
  | error id code message =>
    cases id with
    | none => exact hquiet rfl rfl
    | some id => exact heard_answerAttempt h rfl

theorem heard_sendAttempt (h : (s.answers s.inbox).Kept session) (event : Event) (c : Nat) :
    ((s.sendAttempt event c).answers s.inbox).Kept session := by
  unfold sendAttempt
  dsimp only
  split
  · exact h.attempt rfl (fun r hr => (Option.some.inj hr).symm) rfl (fun _ _ _ hget => .inl hget)
      fun _ _ hget => .inl hget
  · split
    · rw [answers_updateCall]
      refine h.attempt (p := { call := c, event, requestId := none, since := s.inbox.length }) rfl (fun _ hr => by cases hr) rfl ?_
        fun _ _ hget => .inl hget
      intro d id a hget
      by_cases hd : d = c
      · subst hd
        rw [Function.update_self] at hget
        change ((s.calls d).bufferedAwaiting.set _ _).get id = some a at hget
        rw [Dict.get_set] at hget
        split at hget
        · next heq => exact .inr ⟨(Option.some.inj hget).symm, rfl, (eq_of_beq heq).symm⟩
        · exact .inl hget
      · rw [Function.update_of_ne hd] at hget
        exact .inl hget
    · refine h.attempt (p := { call := c, event, requestId := some (newId s.nextId), since := s.inbox.length }) rfl (fun _ hr => by cases hr) rfl
        (fun _ _ _ hget => .inl hget) ?_
      intro id a hget
      change (s.pending.set _ _).get id = some a at hget
      rw [Dict.get_set] at hget
      split at hget
      · next heq =>
        obtain rfl := eq_of_beq heq
        exact .inr ⟨(Option.some.inj hget).symm, rfl, newId_isSeams _⟩
      · exact .inl hget

theorem bufferedAwaiting_answered (r : AttemptResponse W) (id : Str) (call : ToolCall) :
    (call.answered r id).bufferedAwaiting = call.bufferedAwaiting := by
  unfold ToolCall.answered
  split
  · split <;> rfl
  · rfl

theorem response_or_unavailable {response : Option (AttemptResponse W)} {r : AttemptResponse W}
    (h : some (response.getD .unavailable) = some r) : r = .unavailable ∨ response = some r := by
  cases response with
  | none => exact .inl (Option.some.inj h).symm
  | some given => exact .inr h

theorem heard_resume (h : (s.answers s.inbox).Kept session) (a : Nat) :
    ((s.resume a).answers s.inbox).Kept session := by
  unfold resume
  dsimp only
  rw [answers_updateCall_same _ _ (·.answered _ _) (bufferedAwaiting_answered _ _ _)]
  have hreturns := h.returns (a := a)
    (p := ((s.attempts a).settle .unavailable).done ((s.attempts a).response.getD .unavailable) s.inbox.length)
    (sameMade_settle .unavailable (s.attempts a)) ?_ ?_ rfl
  · refine hreturns.forget _ _ _ (fun _ _ _ hget => hget) (fun _ _ hget => hget) ?_
    intro id k hget
    split at hget
    · exact hget
    · cases hid : (s.attempts a).requestId with
      | none =>
        rw [hid] at hget
        exact hget
      | some own =>
        rw [hid] at hget
        exact Dict.get_of_pop hget
  · intro r hr
    have hresponse : some ((s.attempts a).response.getD .unavailable) = some r :=
      (PendingAttempt.settle_response .unavailable (s.attempts a)).symm.trans hr
    exact response_or_unavailable hresponse
  · intro r hr
    exact response_or_unavailable hr

theorem heard_sendFails (h : (s.answers s.inbox).Kept session) (a : Nat) (id : RequestId) :
    ((s.sendFails a id).answers s.inbox).Kept session := by
  have hreturns := h.returns (a := a) (p := (s.attempts a).done .unavailable s.inbox.length) ⟨rfl, rfl, rfl, rfl⟩
    (fun _ hr => .inr hr) (fun _ hr => .inl (Option.some.inj hr).symm) rfl
  exact hreturns.forget _ _ _ (fun _ _ _ hget => hget) (fun _ _ hget => hget) fun _ _ => Dict.get_of_pop

theorem heard_sendOutcome (h : (s.answers inbox).Kept session) (event : Event) (c : Nat) :
    ((s.sendOutcome event c).answers inbox).Kept session := by
  have hleft : ((s.updateCall c (·.concluded (idText W event))).answers inbox).Kept session := by
    rw [answers_updateCall_same _ c (·.concluded _) rfl]
    exact h
  unfold sendOutcome
  dsimp only
  split
  · exact hleft
  · split
    · rw [answers_updateCall_same _ c (·.emit event none) rfl]
      exact hleft
    · exact hleft

theorem heard_endRound (h : (s.answers s.inbox).Kept session) {token : Str} (c : Nat)
    (hfresh : ∀ i ∈ s.issued, i.token ≠ token) : ((s.endRound token c).answers s.inbox).Kept session := by
  have hbegun : (s.updateCall c .beginRound).answers s.inbox = s.answers s.inbox :=
    answers_updateCall_same s c .beginRound rfl
  unfold endRound
  dsimp only
  split
  · exact hbegun ▸ h
  · split
    · exact hbegun ▸ h
    · have hround := h.sendRound (c := c) hfresh (s.calls c).buffered
      have hanswers := @answers_updateCall _ s.inbox (s.updateCall c .beginRound) c (·.sendRound token)
      have hcall : (s.updateCall c .beginRound).calls c = (s.calls c).beginRound := Function.update_self _ _ _
      rw [hbegun, hcall] at hanswers
      have hsent : ∀ t : ToolSeam W, t.answers s.inbox = { s.answers s.inbox with
          buffers := Function.update (s.answers s.inbox).buffers c .empty } → ∀ frame, (({ t with
            rounds := s.rounds.set token (c, ⟨token, (s.calls c).bufferedAwaiting⟩)
            issued := s.issued ++ [⟨token, c, (s.calls c).bufferedAwaiting, s.inbox.length, (s.calls c).buffered⟩] } :
              ToolSeam W).sendFrame frame |>.answers s.inbox).Kept session := by
        intro t ht frame
        have hcount : ({ t.answers s.inbox with
            rounds := s.rounds.set token (c, ⟨token, (s.calls c).bufferedAwaiting⟩)
            issued := s.issued ++ [⟨token, c, (s.calls c).bufferedAwaiting, s.inbox.length, (s.calls c).buffered⟩] } :
              AnswerBooks W).Kept session := by
          rw [ht]
          exact hround
        exact hcount
      exact hsent _ hanswers _

theorem heard_endCalls (h : (s.answers inbox).Kept session) (cs : List Nat) :
    ((cs.foldl (fun s c => s.endCall c) s).answers inbox).Kept session := by
  induction cs generalizing s with
  | nil => exact h
  | cons c cs ih => exact ih (heard_endCall h c)

theorem heard_close (h : (s.answers inbox).Kept session) : (s.close.answers inbox).Kept session := by
  have hsettled : (({ s.settle (unanswered s.pending.values) with pending := .empty } : ToolSeam W).answers inbox).Kept
      session :=
    (h.unavailable s.pending.values).forget _ _ _ (fun _ _ _ hget => hget) (fun _ _ hget => hget) fun _ _ hget => by
      cases hget
  have hended := heard_endCalls hsettled (s.inFlight.values ++ s.waiting.values)
  unfold close
  dsimp only
  generalize (s.inFlight.values ++ s.waiting.values).foldl (fun s c => s.endCall c)
    ({ s.settle (unanswered s.pending.values) with pending := .empty } : ToolSeam W) = ended at hended
  refine (hended.unavailable (ended.rounds.values.flatMap fun r => r.2.awaiting.values)).forget
    _ .empty _ ?_ (fun _ _ hget => by cases hget) fun _ _ hget => hget
  intro c id a hget
  have hsame : (if (ended.rounds.values.map Prod.fst).contains c then (ended.calls c).close else
      ended.calls c).bufferedAwaiting = (ended.calls c).bufferedAwaiting := by split <;> rfl
  change (if (ended.rounds.values.map Prod.fst).contains c then (ended.calls c).close else
    ended.calls c).bufferedAwaiting.get id = some a at hget
  rw [hsame] at hget
  exact hget

/-! ## What stays of the sessions -/

end ToolSeam

namespace SessionBooks

variable {b b' : SessionBooks}

/-- The sessions the requests and the table refer to. -/
structure Referenced (b : SessionBooks) : Prop where
  audit : ∀ c g, (b.requests c).audit = some g → g < b.sessionCount
  tracked : ∀ name g, b.tracked.get name = some g → g < b.sessionCount

/-- Requests keep their session, and sessions their name. -/
structure Steady (b b' : SessionBooks) : Prop where
  requestCount : b.requestCount ≤ b'.requestCount
  sessionCount : b.sessionCount ≤ b'.sessionCount
  audit : ∀ c < b.requestCount, (b'.requests c).audit = (b.requests c).audit
  name : ∀ g < b.sessionCount, (b'.sessions g).sessionId = (b.sessions g).sessionId

theorem evictIdle_steady (turns : Nat) : (b.evictIdle turns).requests = b.requests ∧
    (b.evictIdle turns).requestCount = b.requestCount ∧ (b.evictIdle turns).sessions = b.sessions ∧
    (b.evictIdle turns).sessionCount = b.sessionCount ∧
    ∀ name g, (b.evictIdle turns).tracked.get name = some g → b.tracked.get name = some g := by
  induction turns generalizing b with
  | zero => exact ⟨rfl, rfl, rfl, rfl, fun _ _ hget => hget⟩
  | succ turns ih =>
    simp only [SessionBooks.evictIdle]
    split
    · exact ⟨rfl, rfl, rfl, rfl, fun _ _ hget => hget⟩
    · split
      · next name _ _ _ =>
        obtain ⟨hrequests, hcount, hsessions, hsessionCount, htracked⟩ := ih (b := b.evict name)
        exact ⟨hrequests, hcount, hsessions, hsessionCount, fun other g hget => Dict.get_of_pop (htracked other g hget)⟩
      · exact ⟨rfl, rfl, rfl, rfl, fun _ _ hget => hget⟩

theorem keepIdle_steady (g : Nat) : (b.keepIdle g).requests = b.requests ∧
    (b.keepIdle g).requestCount = b.requestCount ∧ (b.keepIdle g).sessions = b.sessions ∧
    (b.keepIdle g).sessionCount = b.sessionCount ∧
    ∀ name k, (b.keepIdle g).tracked.get name = some k → b.tracked.get name = some k :=
  evictIdle_steady (b := { b with idle := (b.idle.pop (b.sessions g).sessionId).set (b.sessions g).sessionId g }) _

/-- A release changes neither which session a request has nor what a session is called. -/
theorem release_steady (final : Bool) (c : Nat) : (∀ d, ((b.release final c).requests d).audit = (b.requests d).audit) ∧
    (b.release final c).requestCount = b.requestCount ∧
    (∀ g, ((b.release final c).sessions g).sessionId = (b.sessions g).sessionId) ∧
    (b.release final c).sessionCount = b.sessionCount ∧
    ∀ name g, (b.release final c).tracked.get name = some g → b.tracked.get name = some g := by
  unfold SessionBooks.release
  split
  · exact ⟨fun _ => rfl, rfl, fun _ => rfl, rfl, fun _ _ hget => hget⟩
  · next g _ =>
    have hless : (∀ d, ((b.lessOne g c).requests d).audit = (b.requests d).audit) ∧
        ∀ k, ((b.lessOne g c).sessions k).sessionId = (b.sessions k).sessionId :=
      ⟨lessOne_audit g c, lessOne_sessionId g c⟩
    dsimp only
    split
    · exact ⟨fun _ => rfl, rfl, fun _ => rfl, rfl, fun _ _ hget => hget⟩
    · split
      · exact ⟨hless.1, rfl, hless.2, rfl, fun _ _ hget => hget⟩
      · split
        · exact ⟨hless.1, rfl, hless.2, rfl, fun _ _ => Dict.get_of_pop⟩
        · obtain ⟨hrequests, hcount, hsessions, hsessionCount, htracked⟩ := keepIdle_steady (b := b.lessOne g c) g
          exact ⟨fun d => by rw [hrequests]; exact hless.1 d, hcount, fun k => by rw [hsessions]; exact hless.2 k,
            hsessionCount, htracked⟩

theorem Steady.refl : Steady b b := ⟨le_rfl, le_rfl, fun _ _ => rfl, fun _ _ => rfl⟩

theorem Steady.trans {b₁ b₂ b₃ : SessionBooks} (h₁ : Steady b₁ b₂) (h₂ : Steady b₂ b₃) : Steady b₁ b₃ where
  requestCount := h₁.requestCount.trans h₂.requestCount
  sessionCount := h₁.sessionCount.trans h₂.sessionCount
  audit c hc := (h₂.audit c (hc.trans_le h₁.requestCount)).trans (h₁.audit c hc)
  name g hg := (h₂.name g (hg.trans_le h₁.sessionCount)).trans (h₁.name g hg)

theorem Referenced.find (h : b.Referenced) (declared : Option AuditCapability) (name : Str) :
    (b.find declared name).Referenced ∧ Steady b (b.find declared name) := by
  unfold SessionBooks.find
  cases hget : b.tracked.get name with
  | some g => exact ⟨⟨h.audit, h.tracked⟩, le_rfl, le_rfl, fun _ _ => rfl, fun _ _ => rfl⟩
  | none =>
    refine ⟨⟨fun c g hg => Nat.lt_succ_of_lt (h.audit c g hg), ?_⟩, le_rfl, Nat.le_succ _, fun _ _ => rfl, ?_⟩
    · intro other g hg
      rw [SessionBooks.start, Dict.get_set] at hg
      split at hg
      · exact Option.some.inj hg ▸ Nat.lt_succ_self _
      · exact Nat.lt_succ_of_lt (h.tracked other g hg)
    · intro g hg
      exact congrArg _ (start_sessions hg)

theorem Referenced.join (h : b.Referenced) (declared : Option AuditCapability) (name : Str) :
    (b.join declared name).Referenced ∧ Steady b (b.join declared name) := by
  obtain ⟨hfound, hsteady⟩ := h.find declared name
  unfold SessionBooks.join
  dsimp only
  split
  · next g _ =>
    refine ⟨⟨hfound.audit, hfound.tracked⟩, hsteady.requestCount, hsteady.sessionCount, hsteady.audit, ?_⟩
    intro k hk
    refine Eq.trans ?_ (hsteady.name k hk)
    by_cases hkg : k = g
    · subst hkg
      simp [oneMore]
    · simp [oneMore, hkg]
  · exact ⟨hfound, hsteady⟩

theorem Referenced.take (h : b.Referenced) (declared : Option AuditCapability) (named : Option Str) :
    (b.take declared named).Referenced ∧ Steady b (b.take declared named) := by
  have hjoined : (named.elim b fun name => b.join declared name).Referenced ∧
      Steady b (named.elim b fun name => b.join declared name) := by
    cases named with
    | none => exact ⟨h, .refl⟩
    | some name => exact h.join declared name
  unfold SessionBooks.take
  generalize (named.elim b fun name => b.join declared name) = joined at hjoined
  obtain ⟨hreferenced, hsteady⟩ := hjoined
  refine ⟨⟨?_, hreferenced.tracked⟩, Nat.le_succ_of_le hsteady.requestCount, hsteady.sessionCount, ?_, hsteady.name⟩
  · intro c g hg
    by_cases hc : c = joined.requestCount
    · subst hc
      have haudit : named.bind joined.tracked.get = some g := by simpa [SessionBooks.enter] using hg
      obtain ⟨name, -, hget⟩ := Option.bind_eq_some_iff.1 haudit
      exact hreferenced.tracked name g hget
    · exact hreferenced.audit c g (by simpa [SessionBooks.enter, hc] using hg)
  · intro c hc
    have hne : c ≠ joined.requestCount := Nat.ne_of_lt (Nat.lt_of_lt_of_le hc hsteady.requestCount)
    simpa [SessionBooks.enter, hne] using hsteady.audit c hc

theorem Referenced.moves (h : b.Referenced) (hmoves : Moves b b') : b'.Referenced ∧ Steady b b' := by
  induction hmoves with
  | refl => exact ⟨h, .refl⟩
  | tail _ hmove ih =>
    cases hmove with
    | release final c =>
      obtain ⟨haudit, hcount, hname, hsessionCount, htracked⟩ := release_steady final c
      refine ⟨⟨?_, ?_⟩, ih.2.trans ⟨hcount.ge, hsessionCount.ge, fun d _ => haudit d, fun g _ => hname g⟩⟩
      · intro d g hg
        rw [haudit] at hg
        rw [hsessionCount]
        exact ih.1.audit d g hg
      · intro name g hg
        rw [hsessionCount]
        exact ih.1.tracked name g (htracked name g hg)
    | take declared named => exact (ih.1.take declared named).imp_right ih.2.trans

end SessionBooks

namespace ToolSeam

variable {W : World} {s s' : ToolSeam W} {C : SeamConfig} {inbox : List Frame}

open SessionBooks (Moves Steady)

theorem moves_endCalls (cs : List Nat) : Moves s.books (cs.foldl (fun s c => s.endCall c) s).books := by
  induction cs generalizing s with
  | nil => exact .refl
  | cons c cs ih => exact .trans (moves_endCall c) ih

theorem steady_close (h : s.books.Referenced) : s.close.books.Referenced ∧ Steady s.books s.close.books := by
  have hended := h.moves (moves_endCalls (s := { s.settle (unanswered s.pending.values) with pending := .empty })
    (s.inFlight.values ++ s.waiting.values))
  unfold close
  dsimp only
  generalize (s.inFlight.values ++ s.waiting.values).foldl (fun s c => s.endCall c)
    ({ s.settle (unanswered s.pending.values) with pending := .empty } : ToolSeam W) = ended at hended
  have haudit : ∀ c, (if (ended.rounds.values.map Prod.fst).contains c then (ended.calls c).close else
      ended.calls c).audit = (ended.calls c).audit := by
    intro c
    split <;> rfl
  refine ⟨⟨?_, nofun⟩, hended.2.requestCount, hended.2.sessionCount, ?_, hended.2.name⟩
  · intro c g hg
    exact hended.1.audit c g ((haudit c).symm.trans hg)
  · intro c hc
    exact (haudit c).trans (hended.2.audit c hc)

theorem steady_step {a : Act} (h : s.books.Referenced) (hstep : s.step C a = some s') :
    s'.books.Referenced ∧ Steady s.books s'.books := by
  by_cases hclose : a = .close
  · subst hclose
    obtain rfl := Option.some.inj hstep
    exact steady_close h
  · refine h.moves (moves_step hstep ?_)
    cases a <;> first | rfl | exact absurd rfl hclose

/-- The session of a call that has opened does not change. -/
theorem hostSession_steady (h : s.books.Referenced) (hsteady : Steady s.books s'.books) {c : Nat} (hc : c < s.callCount) :
    s'.hostSession c = s.hostSession c := by
  have haudit : (s'.calls c).audit = (s.calls c).audit := hsteady.audit c hc
  unfold hostSession
  rw [haudit]
  refine Option.map_congr fun g hg => ?_
  exact hsteady.name g (h.audit c g hg)

/-! ## What stays of the history -/

/-- What happened, but for the answers. -/
structure History where
  inbox : List Frame
  toSession : List Frame
  resumed : List (Str × Nat)
  refused : List (Str × Nat)
  issued : List IssuedRound
  forgotten : List RequestId

def history (s : ToolSeam W) : History := ⟨s.inbox, s.toSession, s.resumed, s.refused, s.issued, s.forgotten⟩

theorem history_evictIdle (turns : Nat) : (s.evictIdle turns).history = s.history := by
  induction turns generalizing s with
  | zero => rfl
  | succ turns ih =>
    simp only [evictIdle]
    split
    · rfl
    · split
      · exact ih
      · rfl

theorem history_release (final : Bool) (c : Nat) : (s.release final c).history = s.history := by
  unfold release
  split
  · rfl
  · dsimp only
    split
    · rfl
    · split
      · rfl
      · split
        · rfl
        · exact history_evictIdle _

theorem history_endCall (c : Nat) : (s.endCall c).history = s.history := history_release true c

theorem history_evictWaiting (turns : Nat) : (s.evictWaiting turns).history = s.history := by
  induction turns generalizing s with
  | zero => rfl
  | succ turns ih =>
    simp only [evictWaiting]
    split
    · rfl
    · split
      · exact ih.trans (history_endCall _)
      · rfl

theorem history_keepWaiting (frame : Frame) (c : Nat) : (s.keepWaiting frame c).history = s.history :=
  history_evictWaiting _

theorem history_finalFrame (frame : Frame) (c : Nat) : (s.finalFrame frame c).1.history = s.history := by
  unfold finalFrame
  split
  · rfl
  · dsimp only
    split
    · split
      · rfl
      · exact history_keepWaiting (s := (s.settle (unanswered (s.calls c).bufferedAwaiting.values)).updateCall c _) _ c
    · rfl
    · rfl

theorem history_finish (frame : Frame) (c : Nat) : (s.finish frame c).1.history = s.history := by
  refine Eq.trans ?_ (history_release (!!concludes frame) c)
  unfold finish
  dsimp only
  split
  · rfl
  · split
    · next r _ =>
      exact history_keepWaiting (s := (s.release (!!concludes frame) c).settle (unanswered r.awaiting.values)) frame c
    · exact history_finalFrame frame c

theorem history_outbound (frame : Frame) : (s.outbound C frame).1.history = s.history := by
  have hanswer : ∀ id, (outbound.answer frame s id).1.history = s.history := by
    intro id
    unfold outbound.answer
    split
    · rfl
    · split
      · exact history_finish (s := { s.updateCall _ .finish with inFlight := s.inFlight.pop id }) frame _
      · rfl
  unfold outbound
  split
  · split
    · rfl
    · exact hanswer _
  · exact hanswer _
  · rfl

theorem history_deliverFinal (frame : Frame) (c : Nat) : (s.deliverFinal frame c).history = s.history := by
  have hfinal := history_finalFrame (s := s) frame c
  unfold deliverFinal
  split
  · next heq =>
    rw [heq] at hfinal
    exact hfinal
  · next heq =>
    rw [heq] at hfinal
    exact hfinal

theorem history_openCall (id : RequestId) (params : Members) (ownSessionId : Str) :
    (s.openCall C id params ownSessionId).history = s.history := by
  unfold openCall
  dsimp only
  cases sessionNamed W params with
  | none => rfl
  | some name =>
    simp only [Option.elim_some, joinSession, findSession]
    cases s.tracked.get name with
    | some g =>
      dsimp only
      split <;> rfl
    | none =>
      dsimp only
      split <;> rfl

/-- A request that presents a token resumes its round, or is refused. -/
theorem history_retry (id : RequestId) (params : Members) (token : Str) :
    (s.retry id params token).history =
      if (s.rounds.get token).isSome then { s.history with resumed := s.resumed ++ [(token, s.inbox.length)] }
      else { s.history with refused := s.refused ++ [(token, s.inbox.length)] } := by
  unfold retry
  split
  · next hnone =>
    rw [hnone]
    rfl
  · next c r hround =>
    rw [hround]
    dsimp only
    split
    · exact history_deliverFinal _ c
    · rfl

theorem history_cancel (params : Option Members) : (s.cancel params).1.history = s.history := by
  unfold cancel
  dsimp only
  split
  · rfl
  · split
    · exact history_endCall _
    · exact history_endCall _

theorem history_endCalls (cs : List Nat) : (cs.foldl (fun s c => s.endCall c) s).history = s.history := by
  induction cs generalizing s with
  | nil => rfl
  | cons c cs ih => exact ih.trans (history_endCall c)

theorem history_close : s.close.history = { s.history with forgotten := s.forgotten ++ s.answeredBefore } :=
  congrArg (fun h : History => { h with forgotten := s.forgotten ++ s.answeredBefore })
    (history_endCalls (s := { s.settle (unanswered s.pending.values) with pending := .empty })
      (s.inFlight.values ++ s.waiting.values))

theorem presents_none {g : Frame} (h : presented g = none) : ∀ f ∈ some g, presented f = none := by
  intro f hf
  obtain rfl := Option.some.inj hf
  exact h

theorem forwarded_cancel (params : Option Members) : ∀ f ∈ (s.cancel params).2, presented f = none := by
  unfold cancel
  dsimp only
  split
  · exact presents_none rfl
  · split
    · exact fun f hf => by cases hf
    · exact presents_none rfl

theorem forwarded_answer (id : RequestId) (frame : Frame) (hf : answerId frame = some id) :
    (s.answerAttempt id frame).1.history = s.history ∧ ∀ f ∈ (s.answerAttempt id frame).2, presented f = none := by
  have hnone : presented frame = none := by
    unfold presented
    split
    · cases hf
    · rfl
  unfold answerAttempt
  split
  · split
    · exact ⟨rfl, nofun⟩
    · exact ⟨rfl, nofun⟩
  · exact ⟨rfl, presents_none hnone⟩

/-- What came in is passed on, if it presents no token; if it does, its round is resumed or it is refused. -/
theorem history_inbound (frame : Frame) (ownSessionId : Str) :
    (∀ f ∈ (s.inbound C frame ownSessionId).2, presented f = none) ∧
      (s.inbound C frame ownSessionId).1.history = (presented frame).elim s.history fun token =>
        if (s.rounds.get token).isSome then { s.history with resumed := s.resumed ++ [(token, s.inbox.length)] }
        else { s.history with refused := s.refused ++ [(token, s.inbox.length)] } := by
  cases frame with
  | request id method params =>
    simp only [inbound]
    split
    · next hhandshake =>
      rw [presented_handshake hhandshake]
      exact ⟨presents_none (presented_handshake hhandshake), rfl⟩
    · split
      · next hmethod =>
        have hpresented : presented (.request id method params) = presents (params.getD []) := by
          simp [presented, hmethod]
        rw [hpresented]
        unfold takeCall
        split
        · next token htoken =>
          rw [htoken]
          exact ⟨(fun f hf => by cases hf), history_retry id _ token⟩
        · next htoken =>
          rw [htoken]
          exact ⟨presents_none (hpresented.trans htoken), history_openCall id _ ownSessionId⟩
      · next hmethod =>
        have hpresented : presented (.request id method params) = none := by simp [presented, hmethod]
        rw [hpresented]
        exact ⟨presents_none hpresented, rfl⟩
  | notification method params =>
    simp only [inbound]
    split
    · exact ⟨forwarded_cancel params, history_cancel params⟩
    · exact ⟨presents_none rfl, rfl⟩
  | response id result =>
    have hanswer := forwarded_answer (s := s) id (.response id result) rfl
    exact ⟨hanswer.2, hanswer.1⟩
  | error id code message =>
    cases id with
    | none => exact ⟨presents_none rfl, rfl⟩
    | some id =>
      have hanswer := forwarded_answer (s := s) id (.error (some id) code message) rfl
      exact ⟨hanswer.2, hanswer.1⟩

/-! ## Runs -/

/-- Each retry that came in resumed its round or was refused, and none was passed on. -/
structure Traced (h : History) : Prop where
  taken : ∀ place f token, h.inbox[place]? = some f → presented f = some token →
    (token, place) ∈ h.resumed ∨ (token, place) ∈ h.refused
  kept : ∀ f ∈ h.toSession, presented f = none

/-- Taking a frame in adds to neither stream, and neither issues nor forgets anything. -/
theorem inbound_same (frame : Frame) (ownSessionId : Str) :
    (s.inbound C frame ownSessionId).1.inbox = s.inbox ∧
      (s.inbound C frame ownSessionId).1.toSession = s.toSession ∧
        (s.inbound C frame ownSessionId).1.issued = s.issued ∧
          (s.inbound C frame ownSessionId).1.forgotten = s.forgotten := by
  have hhistory := (history_inbound (s := s) (C := C) frame ownSessionId).2
  have hsame : ∀ h : History, h = (presented frame).elim s.history (fun token =>
      if (s.rounds.get token).isSome then { s.history with resumed := s.resumed ++ [(token, s.inbox.length)] }
      else { s.history with refused := s.refused ++ [(token, s.inbox.length)] }) →
        h.inbox = s.inbox ∧ h.toSession = s.toSession ∧ h.issued = s.issued ∧ h.forgotten = s.forgotten := by
    rintro h rfl
    cases presented frame with
    | none => exact ⟨rfl, rfl, rfl, rfl⟩
    | some token =>
      dsimp only [Option.elim_some]
      split <;> exact ⟨rfl, rfl, rfl, rfl⟩
  exact hsame _ hhistory

theorem traced_inbound (h : Traced s.history) (frame : Frame) (ownSessionId : Str) :
    Traced { (s.inbound C frame ownSessionId).1.history with
      inbox := (s.inbound C frame ownSessionId).1.inbox ++ [frame]
      toSession := (s.inbound C frame ownSessionId).1.toSession ++ (s.inbound C frame ownSessionId).2.toList } := by
  obtain ⟨hforward, hhistory⟩ := history_inbound (s := s) (C := C) frame ownSessionId
  obtain ⟨hinbox, htoSession, -⟩ := inbound_same (s := s) (C := C) frame ownSessionId
  constructor
  · intro place f token hf hpresented
    have htaken : (place = s.inbox.length ∧ f = frame) ∨ s.inbox[place]? = some f := by
      rw [hinbox, List.getElem?_append] at hf
      split at hf
      · exact .inr hf
      · next hle =>
        obtain ⟨hzero, rfl⟩ : place - s.inbox.length = 0 ∧ frame = f := by simpa [List.getElem?_singleton] using hf
        exact .inl ⟨by omega, rfl⟩
    rw [hhistory]
    rcases htaken with ⟨rfl, rfl⟩ | hold
    · rw [hpresented]
      dsimp only [Option.elim_some]
      split
      · exact .inl (List.mem_append_right _ (List.mem_singleton.2 rfl))
      · exact .inr (List.mem_append_right _ (List.mem_singleton.2 rfl))
    · have hbefore := h.taken place f token hold hpresented
      cases presented frame with
      | none => exact hbefore
      | some other =>
        dsimp only [Option.elim_some]
        split
        · exact hbefore.imp_left (List.mem_append_left _)
        · exact hbefore.imp_right (List.mem_append_left _)
  · intro f hf
    rcases List.mem_append.1 hf with hf | hf
    · rw [htoSession] at hf
      exact h.kept f hf
    · exact hforward f (Option.mem_toList.1 hf)

/-- What holds of a run's every state. -/
structure Told (s : ToolSeam W) : Prop where
  answers : (s.answers s.inbox).Kept s.hostSession
  books : s.books.Referenced
  issued : ∀ i ∈ s.issued, i.call < s.callCount ∧ Awaited W i.awaiting i.carried
  waits : s.events.Carries
  traced : Traced s.history

theorem told_start : (start : ToolSeam W).Told := by
  refine ⟨⟨fun _ _ _ hget => ?_, nofun, fun _ _ _ hget => ?_, fun _ hsome => ?_, fun _ _ hget => ?_,
    fun _ h => absurd h (Nat.not_lt_zero _), fun _ h => absurd h (Nat.not_lt_zero _), nofun, List.nodup_nil⟩,
    ⟨nofun, fun _ _ hget => ?_⟩, nofun, fun _ => awaited_empty _, ⟨fun _ _ _ hf => ?_, nofun⟩⟩
  · cases hget
  · cases hget
  · cases hsome
  · cases hget
  · cases hget
  · cases hf

/-- An act that leaves the inbox and what was issued as it was. -/
theorem Told.keep (h : s.Told) {a : Act} (hstep : s.step C a = some s')
    (hanswers : (s'.answers s'.inbox).Kept s.hostSession)
    (hissued : ∀ i ∈ s'.issued, i ∈ s.issued ∨ i.call < s.callCount ∧ Awaited W i.awaiting i.carried)
    (htraced : Traced s'.history) : s'.Told := by
  obtain ⟨hreferenced, hsteady⟩ := steady_step h.books hstep
  have hcount : s.callCount ≤ s'.callCount := hsteady.requestCount
  have hissued : ∀ i ∈ s'.issued, i.call < s.callCount ∧ Awaited W i.awaiting i.carried := fun i hi =>
    (hissued i hi).elim (h.issued i) fun hnew => hnew
  have hsession : ∀ i ∈ s'.issued, s'.hostSession i.call = s.hostSession i.call := fun i hi =>
    hostSession_steady h.books hsteady (hissued i hi).1
  refine ⟨?_, hreferenced, fun i hi => ⟨(hissued i hi).1.trans_le hcount, (hissued i hi).2⟩,
    carries_step h.waits hstep, htraced⟩
  exact ⟨hanswers.buffered, hanswers.carried, hanswers.round, hanswers.unresumed, hanswers.pending,
    fun a hlt r hr => (hanswers.responded a hlt r hr).session hsession,
    fun a hlt r hr => (hanswers.returned a hlt r hr).session hsession, hanswers.resumes, hanswers.once⟩

theorem history_sendAttempt (event : Event) (c : Nat) : (s.sendAttempt event c).history = s.history := by
  unfold sendAttempt
  dsimp only
  split
  · rfl
  · split <;> rfl

theorem history_sendOutcome (event : Event) (c : Nat) : (s.sendOutcome event c).history = s.history := by
  unfold sendOutcome
  dsimp only
  split
  · rfl
  · split <;> rfl

theorem history_endRound (token : Str) (c : Nat) : ∃ issued, (s.endRound token c).history = { s.history with issued } ∧
    ∀ i ∈ issued, i ∈ s.issued ∨
      i.call = c ∧ i.awaiting = (s.calls c).bufferedAwaiting ∧ i.carried = (s.calls c).buffered := by
  unfold endRound
  dsimp only
  split
  · exact ⟨s.issued, rfl, fun _ hi => .inl hi⟩
  · split
    · exact ⟨s.issued, rfl, fun _ hi => .inl hi⟩
    · refine ⟨_, rfl, ?_⟩
      intro i hi
      rcases List.mem_append.1 hi with hi | hi
      · exact .inl hi
      · obtain rfl := List.mem_singleton.1 hi
        exact .inr ⟨rfl, rfl, rfl⟩

/-- An act that adds nothing to the history, whatever it forgets. -/
theorem Told.lapse (h : s.Told) {a : Act} (hstep : s.step C a = some s')
    (hhistory : ∃ forgotten, s'.history = { s.history with forgotten })
    (hanswers : (s'.answers s.inbox).Kept s.hostSession) : s'.Told := by
  obtain ⟨forgotten, hhistory⟩ := hhistory
  have hinbox : s'.inbox = s.inbox := congrArg History.inbox hhistory
  have hissued : s'.issued = s.issued := congrArg History.issued hhistory
  exact h.keep hstep (hinbox ▸ hanswers) (fun i hi => .inl (hissued ▸ hi))
    (hhistory ▸ ⟨h.traced.taken, h.traced.kept⟩)

theorem Told.quiet (h : s.Told) {a : Act} (hstep : s.step C a = some s') (hhistory : s'.history = s.history)
    (hanswers : (s'.answers s.inbox).Kept s.hostSession) : s'.Told :=
  h.lapse hstep ⟨_, hhistory⟩ hanswers

theorem Told.step (h : s.Told) {a : Act} (hstep : s.step C a = some s') : s'.Told := by
  cases a with
  | inbound frame ownSessionId =>
    have hkeep := h.keep hstep
    obtain rfl := Option.some.inj hstep
    obtain ⟨hinbox, -, hissued, -⟩ := inbound_same (s := s) (C := C) frame ownSessionId
    refine hkeep ?_ (fun i hi => .inl (hissued ▸ hi)) (traced_inbound h.traced frame ownSessionId)
    have hheard := heard_inbound (C := C) h.answers frame ownSessionId
    rw [← hinbox] at hheard
    exact hheard
  | negotiate c offered =>
    have hquiet := h.quiet hstep
    obtain ⟨_, hstep⟩ := Option.ite_none_right_eq_some.1 hstep
    obtain ⟨_, hstep⟩ := Option.ite_none_right_eq_some.1 hstep
    obtain rfl := Option.some.inj hstep
    refine hquiet rfl ?_
    rw [answers_updateCall_same s c (·.negotiate offered) rfl]
    exact h.answers
  | attempt c event =>
    have hquiet := h.quiet hstep
    obtain ⟨_, hstep⟩ := Option.ite_none_right_eq_some.1 hstep
    obtain rfl := Option.some.inj hstep
    exact hquiet (history_sendAttempt event c) (heard_sendAttempt h.answers event c)
  | resume a =>
    have hquiet := h.quiet hstep
    obtain ⟨_, hstep⟩ := Option.ite_none_right_eq_some.1 hstep
    obtain rfl := Option.some.inj hstep
    exact hquiet rfl (heard_resume h.answers a)
  | sendFails a =>
    have hquiet := h.quiet hstep
    obtain ⟨_, hstep⟩ := Option.ite_none_right_eq_some.1 hstep
    obtain ⟨id, _, rfl⟩ := Option.map_eq_some_iff.1 hstep
    exact hquiet rfl (heard_sendFails h.answers a id)
  | outcome c event =>
    have hquiet := h.quiet hstep
    obtain ⟨_, hstep⟩ := Option.ite_none_right_eq_some.1 hstep
    obtain rfl := Option.some.inj hstep
    exact hquiet (history_sendOutcome event c) (heard_sendOutcome h.answers event c)
  | endRound c secret =>
    have hkeep := h.keep hstep
    obtain ⟨hguard, hstep⟩ := Option.ite_none_right_eq_some.1 hstep
    obtain rfl := Option.some.inj hstep
    obtain ⟨hcall, hunused⟩ := Bool.and_eq_true_iff.1 hguard
    have hlt : c < s.callCount := of_decide_eq_true (Bool.and_eq_true_iff.1 hcall).1
    have hfresh : ∀ i ∈ s.issued, i.token ≠ roundToken C secret := by
      intro i hi heq
      rw [List.any_eq_true.2 ⟨i, hi, by simp [heq]⟩] at hunused
      cases hunused
    obtain ⟨issued, hhistory, hissued⟩ := history_endRound (s := s) (roundToken C secret) c
    have hinbox : (s.endRound (roundToken C secret) c).inbox = s.inbox := congrArg History.inbox hhistory
    have hnow : (s.endRound (roundToken C secret) c).issued = issued := congrArg History.issued hhistory
    refine hkeep (hinbox ▸ heard_endRound h.answers c hfresh) ?_ ?_
    · intro i hi
      rcases hissued i (hnow ▸ hi) with hold | ⟨rfl, hawaiting, hcarried⟩
      · exact .inl hold
      · rw [hawaiting, hcarried]
        exact .inr ⟨hlt, h.waits i.call⟩
    · rw [hhistory]
      exact ⟨h.traced.taken, h.traced.kept⟩
  | write frame stale =>
    have hquiet := h.quiet hstep
    simp only [ToolSeam.step] at hstep
    split at hstep
    · obtain rfl := Option.some.inj hstep
      exact hquiet rfl h.answers
    · obtain ⟨_, hstep⟩ := Option.ite_none_right_eq_some.1 hstep
      obtain rfl := Option.some.inj hstep
      exact hquiet rfl h.answers
  | withdraw place =>
    have hquiet := h.quiet hstep
    simp only [ToolSeam.step] at hstep
    split at hstep
    · cases hstep
    · obtain rfl := Option.some.inj hstep
      exact hquiet rfl h.answers
  | pump =>
    have hquiet := h.quiet hstep
    simp only [ToolSeam.step, pump] at hstep
    split at hstep
    · cases hstep
    · next q rest _ =>
      split at hstep
      · obtain rfl := Option.some.inj hstep
        exact hquiet (history_outbound (s := { s with queue := rest }) q.frame)
          (heard_outbound (s := { s with queue := rest }) h.answers q.frame)
      · obtain rfl := Option.some.inj hstep
        exact hquiet rfl h.answers
  | forget id =>
    have hlapse := h.lapse hstep
    obtain rfl := Option.some.inj hstep
    exact hlapse ⟨_, rfl⟩ h.answers
  | close =>
    have hlapse := h.lapse hstep
    obtain rfl := Option.some.inj hstep
    exact hlapse ⟨_, history_close⟩ (heard_close h.answers)

/-- What the attempts are told, and what becomes of the tokens. -/
structure OwnAnswers (s : ToolSeam W) (C : SeamConfig) : Prop where
  /-- What an attempt returned is the first answer of its own round, or on its own id, or that it is unavailable. -/
  returned : ∀ a < s.attemptCount, ∀ r, (s.attempts a).returned = some r →
    Sourced s.hostSession s.issued s.inbox a (s.attempts a) (s.attempts a).returnedAt r
  /-- An attempt a round waited for was among the events its frame carried, under its id. -/
  carried : ∀ i ∈ s.issued, Awaited W i.awaiting i.carried
  /-- A token resumes one retry at most, after its round went out. -/
  once : (s.resumed.map Prod.fst).Nodup
  resumes : ∀ e ∈ s.resumed, ∃ i ∈ s.issued, i.token = e.1 ∧ i.since ≤ e.2
  /-- Every other request that presents a token was refused, and none reached the session. -/
  taken : ∀ place f token, s.inbox[place]? = some f → presented f = some token →
    (token, place) ∈ s.resumed ∨ (token, place) ∈ s.refused
  kept : ∀ f ∈ s.toSession, presented f = none
  /-- A token that resumed a retry is held no more, and what presents it is answered with an error. -/
  spent : ∀ token ∈ s.resumed.map Prod.fst, s.rounds.get token = none
  refusal : ∀ id params token ownSessionId, presents (params.getD []) = some token → s.rounds.get token = none →
    (s.inbound C (.request id TOOLS_CALL_METHOD params) ownSessionId).2 = none ∧
      (s.inbound C (.request id TOOLS_CALL_METHOD params) ownSessionId).1.queue =
        s.queue ++ [⟨.error (some id) INVALID_PARAMS NO_OPEN_ROUND_MESSAGE, false⟩]

/-- **An attempt is answered by its own round, or on its own id, at most once**, whatever the peer sends and when. -/
theorem own_answers (h : Run C (fun _ _ => true) s) : s.OwnAnswers C := by
  have htold : s.Told := by
    induction h with
    | refl => exact told_start
    | tail _ hstep ih =>
      obtain ⟨a, -, hstep⟩ := hstep
      exact ih.step hstep
  refine ⟨htold.answers.returned, fun i hi => (htold.issued i hi).2, htold.answers.once, htold.answers.resumes, htold.traced.taken, htold.traced.kept, ?_, ?_⟩
  · intro token htoken
    refine Option.eq_none_iff_forall_ne_some.2 fun e he => htold.answers.unresumed token ?_ htoken
    exact Option.isSome_iff_exists.2 ⟨e, he⟩
  · intro id params token ownSessionId htoken hnone
    have hmethod : TOOLS_CALL_METHOD ∉ HANDSHAKE_METHODS := by decide
    simp [inbound, hmethod, takeCall, htoken, retry, hnone, sendFrame]

/-- The host accepts the attempt of the sample call. -/
def sampleAccept : Json :=
  .obj [(STATUS, .str ACCEPT), (SEQ, .int 0), (RECORD_HASH, .str (List.replicate 64 97)), (HOST_TS, .str SAMPLE_TS),
    (PREVIOUS_HASH, .str GENESIS_HASH)]

/-- An attempt goes out in a round, the first retry that presents its token accepts it, and a replay is refused. -/
def sampleAnswered : List Act :=
  [sampleOpening 1, .negotiate 0 sampleSeam.declares, .attempt 0 sampleAttempt, .endRound 0 (lit "one"),
    sampleRetry 2 (lit "one") [(lit "11111111-1111-4111-8111-111111111111", sampleAccept)], .resume 0,
    sampleRetry 3 (lit "one") []]

def AttemptResponse.isAccept : AttemptResponse W → Bool
  | .accept _ => true
  | _ => false

theorem own_answers_accept : ∃ s : ToolSeam reference,
    start.steps sampleSeam (fun _ _ => true) sampleAnswered = some s ∧
      ((s.attempts 0).returned.any AttemptResponse.isAccept = true ∧ s.resumed.length = 1 ∧ s.refused.length = 1) ∧
        s.OwnAnswers sampleSeam := by
  have hrun : ((start : ToolSeam reference).steps sampleSeam (fun _ _ => true) sampleAnswered).map
      (fun s => ((s.attempts 0).returned.any AttemptResponse.isAccept, s.resumed.length, s.refused.length)) =
        some (true, 1, 1) := by decide
  obtain ⟨s, hs, hall⟩ := Option.map_eq_some_iff.1 hrun
  exact ⟨s, hs, by simpa using hall, own_answers (run_of_steps hs)⟩

end ToolSeam

end AuditableMcp
