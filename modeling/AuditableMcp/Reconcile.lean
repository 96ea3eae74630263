import AuditableMcp.InProcess
import AuditableMcp.Verify
import Mathlib.Data.List.Dedup
/-!
# `l2/reconcile.py`: observed egress against what the tool reported

| here | there |
| --- | --- |
| `EgressObservation`, `BoundaryObserver` | `reconcile.py:18-42` |
| `targetRef`, `selfReports`              | `_target_ref` (`:100-103`), and the records `reconcile` reads it of |
| `reported`, `observed`                  | the two sets (`:78-83`); a set of values is the list of its members |
| `reconcile`                             | `reconcile` (`:59-96`) |

What the boundary saw and no record reports is found, each destination once, in order (`reconcile_exact`). What a tool did
through an audited action is never found (`acted_reconciles`).
-/
namespace AuditableMcp

open JsonValue HashChain Effect

/-! ## The boundary -/

structure EgressObservation where
  sessionId : Str
  destination : Str
deriving DecidableEq

structure BoundaryObserver where
  observations : List EgressObservation

def BoundaryObserver.init : BoundaryObserver := ⟨[]⟩

def BoundaryObserver.observeEgress (b : BoundaryObserver) (sid destination : Str) : BoundaryObserver :=
  ⟨b.observations ++ [⟨sid, destination⟩]⟩

def BoundaryObserver.forCall (b : BoundaryObserver) (sid : Str) : List EgressObservation :=
  b.observations.filter (·.sessionId == sid)

/-! ## Reconciling -/

structure ReconcileAnomaly where
  sessionId : Str
  kind : Reason
  destination : Str
  detail : Str
deriving DecidableEq

/-- The key the anomalies are sorted by. -/
def InOrder (a b : ReconcileAnomaly) : Prop := a.destination ≤ b.destination

instance : DecidableRel InOrder := fun a b => inferInstanceAs (Decidable (a.destination ≤ b.destination))

instance : Std.Total InOrder := ⟨fun a b => le_total a.destination b.destination⟩

instance : IsTrans ReconcileAnomaly InOrder := ⟨fun _ _ _ => le_trans⟩

def targetRef (r : SealedRecord) : Json :=
  match get r.event TARGET_RESOURCE with
  | some (.obj t) => getNull t REF
  | _ => .null

def selfReports (sid : Str) (r : SealedRecord) : Bool :=
  hasText r.event SESSION_ID sid && truthy (get r.event EGRESS)

/-- A member of a set is hashed. -/
def reported (records : List SealedRecord) (sid : Str) : Checked (List Json) :=
  (records.filter (selfReports sid)).mapM fun r => do
    needHash (targetRef r)
    pure (targetRef r)

def observed (observations : List EgressObservation) (sid : Str) : List Str :=
  ((observations.filter (·.sessionId == sid)).map (·.destination)).dedup

def unreported (sid destination : Str) : ReconcileAnomaly :=
  ⟨sid, .unreportedEgress, destination, lit "observed egress with no self-report"⟩

def reconcile (records : List SealedRecord) (observations : List EgressObservation) (sid : Str) :
    Checked (List ReconcileAnomaly) := do
  let refs ← reported records sid
  let anomalies := ((observed observations sid).filter fun d => !refs.any (pyEq · (.str d))).map (unreported sid)
  pure (anomalies.insertionSort InOrder)

/-! ## What it finds -/

section

variable {records : List SealedRecord} {observations : List EgressObservation} {sid : Str}

/-- A self-report whose `ref` has no hash. -/
def Unhashable (records : List SealedRecord) (sid : Str) : Prop :=
  ∃ r ∈ records, selfReports sid r = true ∧ (targetRef r).hashable = false

theorem reported_cases (records : List SealedRecord) (sid : Str) :
    (Unhashable records sid ∧ reported records sid = .error .typeError) ∨
      (¬ Unhashable records sid ∧ reported records sid = .ok ((records.filter (selfReports sid)).map targetRef)) := by
  have hfiltered : Unhashable records sid ↔ ∃ r ∈ records.filter (selfReports sid), (targetRef r).hashable = false := by
    simp only [Unhashable, List.mem_filter, and_assoc]
  rw [hfiltered, reported]
  generalize records.filter (selfReports sid) = rs
  induction rs with
  | nil => exact .inr ⟨by simp, rfl⟩
  | cons r rs ih =>
    simp only [List.mapM_cons, List.exists_mem_cons_iff, List.map_cons, needHash]
    cases hr : (targetRef r).hashable with
    | false => exact .inl ⟨.inl rfl, rfl⟩
    | true =>
      rcases ih with ⟨hbad, herr⟩ | ⟨hgood, hok⟩
      · refine .inl ⟨.inr hbad, ?_⟩
        simp only [needHash] at herr
        simp [bind, Except.bind, pure, Except.pure] at herr ⊢
        rw [herr]
      · refine .inr ⟨by simpa using hgood, ?_⟩
        simp only [needHash] at hok
        simp [bind, Except.bind, pure, Except.pure] at hok ⊢
        rw [hok]

theorem mem_observed {d : Str} : d ∈ observed observations sid ↔ ⟨sid, d⟩ ∈ observations := by
  simp only [observed, List.mem_dedup, List.mem_map, List.mem_filter, beq_iff_eq]
  constructor
  · rintro ⟨⟨_, _⟩, ⟨hmem, rfl⟩, rfl⟩
    exact hmem
  · exact fun h => ⟨_, ⟨h, rfl⟩, rfl⟩

/-- The anomalies of distinct destinations, sorted. -/
theorem sorted_unreported {ds : List Str} (h : ds.Nodup) :
    (((ds.map (unreported sid)).insertionSort InOrder).map (·.destination)).Pairwise (· < ·) := by
  have hsorted : (((ds.map (unreported sid)).insertionSort InOrder).map (·.destination)).Pairwise (· ≤ ·) :=
    List.pairwise_map.2 (List.pairwise_insertionSort InOrder (ds.map (unreported sid)))
  have hnodup : (((ds.map (unreported sid)).insertionSort InOrder).map (·.destination)).Nodup := by
    refine ((List.perm_insertionSort _ _).map _).nodup_iff.2 ?_
    rw [List.map_map]
    exact (List.map_id ds).symm ▸ h
  exact (hsorted.and hnodup).imp fun hab => lt_of_le_of_ne hab.1 hab.2

/-- Reconciling raises where a self-report's `ref` cannot be in a set; else it finds the observed destinations no record
reports, each once and in order. -/
theorem reconcile_spec (records : List SealedRecord) (observations : List EgressObservation) (sid : Str) :
    (reconcile records observations sid = .error .typeError ∧ Unhashable records sid) ∨
      ∃ out, reconcile records observations sid = .ok out ∧ ¬ Unhashable records sid ∧
        (∀ a ∈ out, a = unreported sid a.destination) ∧ (out.map (·.destination)).Pairwise (· < ·) ∧
        ∀ d, d ∈ out.map (·.destination) ↔ ⟨sid, d⟩ ∈ observations ∧
          ∀ r ∈ records, selfReports sid r = true → targetRef r ≠ .str d := by
  rcases reported_cases records sid with ⟨hbad, herr⟩ | ⟨hgood, hok⟩
  · refine .inl ⟨?_, hbad⟩
    rw [reconcile, herr]
    rfl
  · refine .inr ⟨_, by rw [reconcile, hok]; rfl, hgood, ?_, sorted_unreported ?_, fun d => ?_⟩
    · intro a ha
      obtain ⟨d, _, rfl⟩ := List.mem_map.1 ((List.mem_insertionSort _).1 ha)
      rfl
    · exact (List.nodup_dedup _).filter _
    · have hnone : ((records.filter (selfReports sid)).map targetRef).any (pyEq · (.str d)) = false ↔
          ∀ r ∈ records, selfReports sid r = true → targetRef r ≠ .str d := by
        simp only [List.any_eq_false, List.mem_map, List.mem_filter, pyEq_str, ne_eq]
        constructor
        · exact fun h r hr hs => h _ ⟨r, ⟨hr, hs⟩, rfl⟩
        · rintro h _ ⟨r, ⟨hr, hs⟩, rfl⟩
          exact h r hr hs
      rw [((List.perm_insertionSort _ _).map _).mem_iff, List.map_map]
      simp only [List.mem_map, List.mem_filter, Function.comp_apply, unreported, exists_eq_right, mem_observed,
        Bool.not_eq_true', hnone]

/-- An observer that was told of these, each a session and a destination. -/
def BoundaryObserver.told (calls : List (Str × Str)) : BoundaryObserver :=
  calls.foldl (fun b call => b.observeEgress call.1 call.2) .init

theorem mem_told {calls : List (Str × Str)} {d : Str} :
    ⟨sid, d⟩ ∈ (BoundaryObserver.told calls).observations ↔ (sid, d) ∈ calls := by
  have hfold : ∀ (calls : List (Str × Str)) (b : BoundaryObserver),
      (calls.foldl (fun b call => b.observeEgress call.1 call.2) b).observations =
        b.observations ++ calls.map fun call => ⟨call.1, call.2⟩ := by
    intro calls
    induction calls with
    | nil => exact fun b => (List.append_nil _).symm
    | cons call calls ih =>
      intro b
      rw [List.foldl_cons, ih, List.map_cons, BoundaryObserver.observeEgress, List.append_assoc, List.singleton_append]
  rw [BoundaryObserver.told, hfold]
  simp [BoundaryObserver.init]

theorem observed_forCall (b : BoundaryObserver) : observed (b.forCall sid) sid = observed b.observations sid := by
  simp only [observed, BoundaryObserver.forCall, List.filter_filter, Bool.and_self]

/-- **Omissions are found, and nothing else.** Whatever an observer was told, and of whatever sessions: reconciling the
observations of one call is reconciling all of them, and finds the destinations told of for that call and reported by no
record, each once and in order. It raises just where a self-report's `ref` cannot be in a set. -/
theorem reconcile_exact (records : List SealedRecord) (calls : List (Str × Str)) (sid : Str) :
    reconcile records ((BoundaryObserver.told calls).forCall sid) sid =
        reconcile records (BoundaryObserver.told calls).observations sid ∧
      ((reconcile records (BoundaryObserver.told calls).observations sid = .error .typeError ∧ Unhashable records sid) ∨
        ∃ out, reconcile records (BoundaryObserver.told calls).observations sid = .ok out ∧ ¬ Unhashable records sid ∧
          (∀ a ∈ out, a = unreported sid a.destination) ∧ (out.map (·.destination)).Pairwise (· < ·) ∧
          ∀ d, d ∈ out.map (·.destination) ↔ (sid, d) ∈ calls ∧
            ∀ r ∈ records, selfReports sid r = true → targetRef r ≠ .str d) := by
  refine ⟨by rw [reconcile, observed_forCall]; rfl, ?_⟩
  simpa only [mem_told] using reconcile_spec records (BoundaryObserver.told calls).observations sid

end

/-! ## What audited actions did -/

/-- The event reports an egress of its session to a destination. -/
structure Egresses (e : Event) (sid destination : Str) : Prop where
  session : get e SESSION_ID = some (.str sid)
  egress : get e EGRESS = some (.bool true)
  target : ∃ t, get e TARGET_RESOURCE = some (.obj t) ∧ get t REF = some (.str destination)

variable {W : World} {c : Config} {ι : Type} [DecidableEq ι]

/-- A record of it reports the egress. -/
theorem Egresses.reported (hj : JcsSpec W.dumps InDomain) {e : Event} {sid d : Str} (h : Egresses e sid d)
    {r : SealedRecord} {text : Str} (he : canonicalize W (.obj e) = .ok text) (hr : canonicalize W (.obj r.event) = .ok text) :
    selfReports sid r = true ∧ targetRef r = .str d := by
  obtain ⟨hdom, rfl⟩ := canonicalize_eq_ok.1 he
  obtain ⟨hdom', htext⟩ := canonicalize_eq_ok.1 hr
  have heq : JsonEq (.obj e) (.obj r.event) := (hj.eq_iff _ _ hdom hdom').1 htext
  obtain ⟨v, hv, heqv⟩ := heq.get_some h.egress
  obtain rfl := normForm_eq_bool.1 heqv.symm
  obtain ⟨t, ht, href⟩ := h.target
  obtain ⟨u, hu, hequ⟩ := heq.get_some ht
  obtain ⟨t', rfl⟩ := eq_obj_of_normForm hequ.symm
  constructor
  · simp only [selfReports, hv, truthy, Bool.and_true, hasText_iff]
    exact heq.get_str h.session
  · simp only [targetRef, hu, getNull, hequ.get_str href, Option.getD_some]

/-- **Audited egress is never unreported.** Where an action's body ran, whatever the boundary saw and whenever the chain is
reconciled, the action's destination is not found. -/
theorem acted_reconciles (hj : JcsSpec W.dumps InDomain) {S : Pool ToolQuery (ToolReply W) (Deployment ι)
      (Except ToolRaise Unit × Option (AcceptResponse W)) ι}
    (hr : Relation.ReflTransGen (Deployment.Step W c) ⟨.start, fun _ => none⟩ S) {i : ι} {e : Event} {sid d : Str}
    {chain : List SealedRecord} (hattempt : .attempt e ∈ S.shared.mine i) (hbody : .body chain ∈ S.shared.mine i)
    (hegress : Egresses e sid d) (observations : List EgressObservation) :
    ∀ out, reconcile (S.shared.chain c) observations sid = .ok out → d ∉ out.map (·.destination) := by
  intro out hout hmem
  obtain ⟨r, hchain, text, he, hrec⟩ := (Deployment.reached hj hr).recorded hattempt hbody
  obtain ⟨hself, href⟩ := hegress.reported hj he hrec
  rcases reconcile_spec (S.shared.chain c) observations sid with ⟨herr, _⟩ | ⟨out', hok, _, _, _, hfound⟩
  · rw [hout] at herr
    cases herr
  · obtain rfl := Except.ok.inj (hout.symm.trans hok)
    exact ((hfound d).1 hmem).2 r hchain hself href

def Done.isBody : Done → Bool
  | .body _ => true
  | _ => false

def Done.isAttemptOf (e : Event) : Done → Bool
  | .attempt f => f == e
  | _ => false

theorem Done.isAttemptOf_iff {d : Done} {e : Event} : d.isAttemptOf e = true ↔ d = .attempt e := by
  cases d <;> simp [isAttemptOf]

theorem Done.isBody_iff {d : Done} : d.isBody = true ↔ ∃ chain, d = .body chain := by cases d <;> simp [isBody]

/-- It reached its file, and the boundary saw that and another egress. -/
theorem acted_reconciles_sample : ∃ S, Relation.ReflTransGen
      (Deployment.Step egressWorld sampleConfig) ⟨.start, fun _ : Unit => none⟩ S ∧
    ∀ out, reconcile (S.shared.chain sampleConfig) [⟨SAMPLE_SESSION, lit "b"⟩, ⟨SAMPLE_SESSION, lit "a"⟩]
      SAMPLE_SESSION = .ok out → lit "a" ∉ out.map (·.destination) := by
  have hsome : egressRun.isSome = true := by decide +kernel
  obtain ⟨⟨x, s⟩, hs⟩ := Option.isSome_iff_exists.1 hsome
  have hfacts : ∀ r ∈ egressRun, (r.2.mine ()).any (Done.isAttemptOf (egressEvent .attempted)) = true ∧
      (r.2.mine ()).any Done.isBody = true := by decide +kernel
  obtain ⟨hattempt, hbody⟩ := hfacts _ hs
  obtain ⟨_, ha, hattempt⟩ := List.any_eq_true.1 hattempt
  obtain rfl := Done.isAttemptOf_iff.1 hattempt
  obtain ⟨d, hd, hchain⟩ := List.any_eq_true.1 hbody
  obtain ⟨chain, rfl⟩ := Done.isBody_iff.1 hchain
  have hrun : Relation.ReflTransGen (Deployment.Step egressWorld sampleConfig) ⟨.start, fun _ : Unit => none⟩ _ :=
    Pool.born_alone () rfl ⟨egressAction, rfl⟩ (Prog.exec_runs hostedAnswers_beside hs)
  have hegress : Egresses (egressEvent .attempted) SAMPLE_SESSION (lit "a") :=
    ⟨by decide, by decide, ⟨_, rfl, by decide⟩⟩
  exact ⟨_, hrun, acted_reconciles egressWorld_jcs hrun ha hd hegress _⟩

end AuditableMcp
