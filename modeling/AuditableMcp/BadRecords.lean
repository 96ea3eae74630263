import AuditableMcp.Untrusted
/-!
# Whether every bad record is named (`verify.py:390-400`, `:617-643`)

`verify_chain` reports a record it cannot hash, `verify_ledger` one whose event is bad, less the records the first
pass reported. It knows these by their stored `seq`: a bad record that can be hashed goes unreported where another
stores its number and cannot be (`hidden`). And a good record that cannot be hashed, for its `host_ts` or its link, is
reported as if it were bad (`misnamed`).

`bad_records`: each bad record has an issue of its own exactly where the misnamed ones stand for the hidden ones.
-/
namespace AuditableMcp

open JsonValue

/-! ## The records -/

section
variable (W : World)

/-- The embedded event is outside the canonicalization domain, or invalid for its own version. -/
def RawRecord.bad (r : RawRecord) : Bool := (sealedError W r.event).isSome

theorem RawRecord.bad_iff {r : RawRecord} : r.bad W = true ↔ ¬ (ValidForVersion W r.event ∧ InDomain r.event) := by
  rw [RawRecord.bad, ← sealedError_eq_none, Option.isSome_iff_ne_none]

/-- The records, each with whether it cannot be hashed. -/
def marked : Bool → List RawRecord → List (RawRecord × Bool)
  | _, [] => []
  | linked, r :: rs => (r, !(linked && r.canonical)) :: marked (linkAfter linked r) rs

/-- The numbers stored by the records that cannot be hashed. -/
def uncanonicalSeqs (rs : List RawRecord) : List Json := ((marked true rs).filter (·.2)).map (·.1.seq)

/-- The good records that cannot be hashed. -/
def misnamed (rs : List RawRecord) : List RawRecord := ((marked true rs).filter fun m => m.2 && !m.1.bad W).map Prod.fst

/-- The bad records that can be hashed, and store the number of one that cannot. -/
def hidden (rs : List RawRecord) : List RawRecord :=
  ((marked true rs).filter fun m => !m.2 && (m.1.bad W && listed m.1.seq (uncanonicalSeqs rs))).map Prod.fst

/-- The numbers under which records are named as bad. -/
def namedSeqs (issues : List VerifyIssue) : List Json := (issues.filter (·.kind = .schemaInvalid)).map (·.seq)

/-- A report's issues of bad records are the version regressions and, for each bad record, one of its own. -/
def NamesEach (rs : List RawRecord) (report : VerifyReport) : Prop :=
  ∃ regressions, versionRegressions {} none rs = .ok regressions ∧
    (namedSeqs report.issues).Perm ((rs.filter (·.bad W)).map (·.seq) ++ namedSeqs regressions)

/-- There are as many of them, whatever they name. -/
def NamesAsMany (rs : List RawRecord) (report : VerifyReport) : Prop :=
  ∃ regressions, versionRegressions {} none rs = .ok regressions ∧
    (namedSeqs report.issues).length = (rs.filter (·.bad W)).length + regressions.length

end

variable {W : World} {o : VerifyOptions}

/-! ## What the first pass names -/

@[simp] theorem namedSeqs_append (is js : List VerifyIssue) : namedSeqs (is ++ js) = namedSeqs is ++ namedSeqs js := by
  simp [namedSeqs]

theorem namedSeqs_other {is : List VerifyIssue} (h : ∀ i ∈ is, i.kind ≠ .schemaInvalid) : namedSeqs is = [] := by
  simpa [namedSeqs] using h

theorem namedSeqs_all {is : List VerifyIssue} (h : ∀ i ∈ is, i.kind = .schemaInvalid) : namedSeqs is = is.map (·.seq) := by
  rw [namedSeqs, List.filter_eq_self.2 (by simpa using h)]

theorem namedSeqs_expect {p : Prop} [Decidable p] {seq : Json} {kind : Reason} {detail : Str} (h : kind ≠ .schemaInvalid) :
    namedSeqs (expect p ⟨seq, kind, detail⟩) = [] := by
  refine namedSeqs_other fun i hi => ?_
  unfold expect at hi
  split at hi
  · cases hi
  · rw [List.mem_singleton.1 hi]
    exact h

theorem namedSeqs_expectWritten {p : Prop} [Decidable p] {seq : Json} {kind : Reason} {detail : Checked Str}
    {is : List VerifyIssue} (hkind : kind ≠ .schemaInvalid) (h : expectWritten p seq kind detail = .ok is) :
    namedSeqs is = [] :=
  namedSeqs_other fun i hi => by
    rw [expectWritten_kind h i hi]
    exact hkind

theorem namedSeqs_recompute (r : RawRecord) (prev : Str) :
    namedSeqs (recompute W r prev).issues = if (recompute W r prev).hashable then [] else [r.seq] := by
  unfold recompute
  cases computeRecordHash W r.event r.seq r.hostTs (.str prev) with
  | ok h =>
    simp only [namedSeqs_append, if_true]
    rw [namedSeqs_expect (by decide), namedSeqs_expect (by decide)]
    rfl
  | error m => rfl

theorem namedSeqs_correlate {r : RawRecord} {inner : Json} {attempted : List CallKey} {x : List CallKey × List VerifyIssue}
    (h : correlate W o r inner attempted = .ok x) : namedSeqs x.2 = [] := by
  obtain ⟨key, -, h⟩ := bind_eq_ok.1 h
  cases key with
  | none =>
    obtain rfl := pure_eq_ok.1 h
    rfl
  | some key =>
    obtain ⟨attempt, -, h⟩ := bind_eq_ok.1 h
    split at h
    · split at h
      · obtain rfl := pure_eq_ok.1 h
        rfl
      · obtain ⟨orphaned, hfound, h⟩ := bind_eq_ok.1 h
        obtain rfl := pure_eq_ok.1 h
        exact namedSeqs_expectWritten (by decide) hfound
    · cases h

theorem namedSeqs_replay {r : RawRecord} {number : Option Numbering} {numbered : List Numbering} :
    namedSeqs (replayIssues W r number numbered) = [] := by
  unfold replayIssues
  split
  · rfl
  · exact namedSeqs_expect (by decide)

theorem namedSeqs_principal {r : RawRecord} {is : List VerifyIssue} (h : principalIssues W o r = .ok is) : namedSeqs is = [] := by
  unfold principalIssues at h
  split at h
  · obtain rfl := pure_eq_ok.1 h
    rfl
  · obtain ⟨principal, -, h⟩ := bind_eq_ok.1 h
    exact namedSeqs_expectWritten (by decide) h

theorem namedSeqs_signature {r : RawRecord} {hashable : Bool} {inner : Json} {x : List VerifyIssue × Bool}
    (h : signatureCheck o r hashable inner = .ok x) : namedSeqs x.1 = [] := by
  unfold signatureCheck at h
  split at h
  · split at h
    · split at h
      · obtain rfl := pure_eq_ok.1 h
        rfl
      · obtain ⟨good, -, h⟩ := bind_eq_ok.1 h
        obtain rfl := pure_eq_ok.1 h
        exact namedSeqs_expect (by decide)
    · obtain rfl := pure_eq_ok.1 h
      rfl
  · obtain rfl := pure_eq_ok.1 h
    rfl

theorem namedSeqs_countersignature {r : RawRecord} {hashable : Bool} {x : List VerifyIssue × Bool}
    (h : countersignatureCheck W o r hashable = .ok x) : namedSeqs x.1 = [] := by
  unfold countersignatureCheck at h
  split at h
  · obtain rfl := pure_eq_ok.1 h
    exact namedSeqs_expect (by decide)
  split at h
  · obtain rfl := pure_eq_ok.1 h
    rfl
  split at h
  · split at h
    · obtain rfl := pure_eq_ok.1 h
      rfl
    · obtain ⟨good, -, h⟩ := bind_eq_ok.1 h
      obtain ⟨invalid, hfound, h⟩ := bind_eq_ok.1 h
      obtain rfl := pure_eq_ok.1 h
      exact namedSeqs_expectWritten (by decide) hfound
  · obtain rfl := pure_eq_ok.1 h
    rfl

theorem namedSeqs_identity {r : RawRecord} {is : List VerifyIssue} (h : identityIssues W o r = .ok is) : namedSeqs is = [] := by
  unfold identityIssues at h
  split at h
  · obtain rfl := pure_eq_ok.1 h
    rfl
  · obtain ⟨detail, -, h⟩ := bind_eq_ok.1 h
    split at h
    · obtain rfl := pure_eq_ok.1 h
      rfl
    · obtain rfl := pure_eq_ok.1 h
      rfl

/-- One record names itself where it cannot be hashed. -/
theorem chainStep_named {index : Nat} {r : RawRecord} {s s' : ChainState} (h : chainStep W o index r s = .ok s') :
    namedSeqs s'.issues = namedSeqs s.issues ++ (if (recompute W r s.prevRecomputed).hashable then [] else [r.seq]) ∧
      s'.prevRecomputed = (recompute W r s.prevRecomputed).hash := by
  obtain ⟨q, inner, corr, p, g, c, i, hq, _, hcorr, hp, hg, hc, hi, rfl⟩ := chainStep_eq_ok.1 h
  refine ⟨?_, rfl⟩
  have hseq : namedSeqs q = [] := namedSeqs_expectWritten (by decide) hq
  simp only [namedSeqs_append, hseq, namedSeqs_recompute, namedSeqs_correlate hcorr, namedSeqs_replay, namedSeqs_principal hp,
    namedSeqs_signature hg, namedSeqs_countersignature hc, namedSeqs_identity hi, List.append_nil]

/-- The loop names the records that cannot be hashed. -/
theorem chainLoop_named (hhex : ∀ t, InDomain (.str (W.sha256 t))) {rs : List RawRecord} : ∀ {linked : Bool} {index : Nat}
    {s s' : ChainState}, (InDomain (.str s.prevRecomputed) ↔ linked = true) → chainLoop W o index rs s = .ok s' →
      namedSeqs s'.issues = namedSeqs s.issues ++ ((marked linked rs).filter (·.2)).map (·.1.seq) := by
  induction rs with
  | nil =>
    intro linked index s s' _ h
    obtain rfl := pure_eq_ok.1 h
    simp [marked]
  | cons r rs ih =>
    intro linked index s s' hl h
    obtain ⟨t, hstep, hloop⟩ := chainLoop_cons_eq_ok.1 h
    obtain ⟨hnamed, hlink⟩ := chainStep_named hstep
    have hnext : InDomain (.str t.prevRecomputed) ↔ linkAfter linked r = true := hlink ▸ inDomain_link hhex hl
    have hhashable : (recompute W r s.prevRecomputed).hashable = (linked && r.canonical) := by
      rw [Bool.eq_iff_iff, recompute_hashable, hl, Bool.and_eq_true, and_comm]
    rw [ih hnext hloop, hnamed, hhashable, List.append_assoc, marked]
    cases linked && r.canonical with
    | true => rfl
    | false => rfl

theorem verifyChain_named (hhex : ∀ t, InDomain (.str (W.sha256 t))) {rs : List RawRecord} {report : VerifyReport}
    (h : verifyChain W o rs = .ok report) : namedSeqs report.issues = uncanonicalSeqs rs := by
  obtain ⟨_, s, inner, gaps, hloop, _, _, rfl⟩ := verifyChain_eq_ok.1 h
  have hgenesis : InDomain (.str ChainState.initial.prevRecomputed) ↔ true = true := by decide
  have hgaps : namedSeqs (gaps.map (gapIssue W)) = [] := namedSeqs_other fun i hi => by
    obtain ⟨gap, -, rfl⟩ := List.mem_map.1 hi
    have hkind : (gapIssue W gap).kind = .signerSeqGap := rfl
    rw [hkind]
    decide
  have hdigest : namedSeqs (digestIssues o s.prevRecomputed) = [] := by
    unfold digestIssues
    split
    · rfl
    · exact namedSeqs_expect (by decide)
  rw [namedSeqs_append, namedSeqs_append, hgaps, hdigest, chainLoop_named hhex hgenesis hloop, List.append_nil, List.append_nil]
  rfl

/-! ## What the second pass names -/

theorem schemaIssues_named (ho : o.adapter = DEFAULT_ADAPTER) {already : List Json} {rs : List RawRecord} :
    ∃ found, schemaIssues W o already rs = .ok found ∧
      namedSeqs found = (rs.filter fun r => r.bad W && !listed r.seq already).map (·.seq) := by
  induction rs with
  | nil => exact ⟨[], rfl, rfl⟩
  | cons r rs ih =>
    obtain ⟨rest, hrest, hnamed⟩ := ih
    have hevent : o.adapter.eventOf r.event = .ok r.event := by rw [ho]; rfl
    by_cases hin : listed r.seq already = true
    · refine ⟨rest, ?_, ?_⟩
      · simp [schemaIssues, hin, hrest, bind, Except.bind, pure, Except.pure]
      · rw [hnamed, List.filter_cons_of_neg (by simp [hin])]
    · refine ⟨(sealedError W r.event).toList.map (⟨r.seq, .schemaInvalid, ·⟩) ++ rest, ?_, ?_⟩
      · simp [schemaIssues, hin, hevent, hrest, bind, Except.bind, pure, Except.pure]
      · rw [namedSeqs_append, hnamed]
        cases hbad : sealedError W r.event with
        | none => rw [List.filter_cons_of_neg (by simp [RawRecord.bad, hbad])]; rfl
        | some m => rw [List.filter_cons_of_pos (by simp [RawRecord.bad, hbad, hin])]; rfl

theorem versionRegressions_named (ho : o.adapter = DEFAULT_ADAPTER) (rs : List RawRecord) : ∀ latest,
    ∃ found, versionRegressions o latest rs = .ok found ∧ versionRegressions {} latest rs = .ok found ∧
      ∀ i ∈ found, i.kind = .schemaInvalid := by
  induction rs with
  | nil => exact fun _ => ⟨[], rfl, rfl, by simp⟩
  | cons r rs ih =>
    intro latest
    have hevent : o.adapter.eventOf r.event = .ok r.event := by rw [ho]; rfl
    have hdefault : DEFAULT_ADAPTER.eventOf r.event = .ok r.event := rfl
    simp only [versionRegressions, hevent, hdefault, bind, Except.bind]
    split
    · exact ih latest
    · split
      · exact ih latest
      · split
        · next high name =>
          split
          · obtain ⟨found, hfound, hsame, hkind⟩ := ih (some (high, name))
            rw [hfound, hsame]
            refine ⟨_, rfl, rfl, ?_⟩
            rw [List.forall_mem_cons]
            exact ⟨rfl, hkind⟩
          · exact ih _
        · exact ih _

/-- The records a report names: those that cannot be hashed, the bad ones under another number, the regressions. -/
theorem verifyLedger_named (hhex : ∀ t, InDomain (.str (W.sha256 t))) (ho : o.adapter = DEFAULT_ADAPTER) {rs : List RawRecord}
    {report : VerifyReport} (h : verifyLedger W o rs = .ok report) :
    ∃ regressions, versionRegressions {} none rs = .ok regressions ∧ namedSeqs regressions = regressions.map (·.seq) ∧
      namedSeqs report.issues = uncanonicalSeqs rs ++ (rs.filter fun r => r.bad W && !listed r.seq (uncanonicalSeqs rs)).map (·.seq) ++
        namedSeqs regressions := by
  obtain ⟨chain, hchain, h⟩ := bind_eq_ok.1 h
  have halready : (chain.issues.filter (·.kind = .schemaInvalid)).map (·.seq) = uncanonicalSeqs rs := verifyChain_named hhex hchain
  obtain ⟨schema, hschema, hfound⟩ := @schemaIssues_named W o ho (uncanonicalSeqs rs) rs
  obtain ⟨regressions, hregressions, hsame, hkind⟩ := versionRegressions_named ho rs none
  rw [halready] at h
  simp only [hschema, hregressions, bind, Except.bind] at h
  refine ⟨regressions, hsame, namedSeqs_all hkind, ?_⟩
  split at h
  · next hnone =>
    obtain rfl := pure_eq_ok.1 h
    obtain ⟨rfl, rfl⟩ := List.append_eq_nil_iff.1 (List.isEmpty_iff.1 hnone)
    rw [← hfound, ← halready]
    simp [namedSeqs]
  · obtain rfl := pure_eq_ok.1 h
    rw [namedSeqs_append, namedSeqs_append, hfound, ← List.append_assoc]
    exact congrArg (· ++ _ ++ _) halready

/-! ## One for each -/

/-- A part of a list, by a further test. -/
theorem filter_split {α : Type} (p q : α → Bool) (l : List α) :
    (l.filter p).Perm ((l.filter fun a => p a && q a) ++ l.filter fun a => p a && !q a) := by
  have hboth := List.filter_append_perm q (l.filter p)
  rw [List.filter_filter, List.filter_filter] at hboth
  simpa only [Bool.and_comm] using hboth.symm

theorem marked_fst {linked : Bool} {rs : List RawRecord} : (marked linked rs).map Prod.fst = rs := by
  induction rs generalizing linked with
  | nil => rfl
  | cons r rs ih => rw [marked, List.map_cons, ih]

theorem filter_marked (p : RawRecord → Bool) (rs : List RawRecord) :
    (rs.filter p).map (·.seq) = ((marked true rs).filter fun m => p m.1).map (·.1.seq) := by
  conv_lhs => rw [← @marked_fst true rs]
  rw [List.filter_map, List.map_map]
  rfl

/-- Those named in either pass, against the bad ones. -/
theorem named_perm (rs : List RawRecord) : ∃ shared : List Json,
    (uncanonicalSeqs rs ++ (rs.filter fun r => r.bad W && !listed r.seq (uncanonicalSeqs rs)).map (·.seq)).Perm
      (shared ++ (misnamed W rs).map (·.seq)) ∧
    ((rs.filter (·.bad W)).map (·.seq)).Perm (shared ++ (hidden W rs).map (·.seq)) := by
  -- Those that cannot be hashed are bad or misnamed; the bad ones that can be hashed are hidden or named second.
  have hlisted : ∀ m ∈ marked true rs, m.2 = true → listed m.1.seq (uncanonicalSeqs rs) = true := by
    intro m hm hmark
    refine List.any_eq_true.2 ⟨m.1.seq, List.mem_map.2 ⟨m, List.mem_filter.2 ⟨hm, hmark⟩, rfl⟩, ?_⟩
    simp
  have hfirst := (filter_split (·.2) (fun m => m.1.bad W) (marked true rs)).map (·.1.seq)
  have hbad := (filter_split (fun m => m.1.bad W) (·.2) (marked true rs)).map (·.1.seq)
  have hhashed := (filter_split (fun m => m.1.bad W && !m.2) (fun m => listed m.1.seq (uncanonicalSeqs rs)) (marked true rs)).map (·.1.seq)
  have hsecond : (marked true rs).filter (fun m => m.1.bad W && !listed m.1.seq (uncanonicalSeqs rs)) =
      (marked true rs).filter fun m => (m.1.bad W && !m.2) && !listed m.1.seq (uncanonicalSeqs rs) := by
    refine List.filter_congr fun m hm => ?_
    cases hmark : m.2 with
    | true => simp [hlisted m hm hmark]
    | false => simp
  have hhidden : (marked true rs).filter (fun m => !m.2 && (m.1.bad W && listed m.1.seq (uncanonicalSeqs rs))) =
      (marked true rs).filter fun m => (m.1.bad W && !m.2) && listed m.1.seq (uncanonicalSeqs rs) :=
    List.filter_congr fun m _ => by cases m.2 <;> simp
  have hswap : (marked true rs).filter (fun m => m.2 && m.1.bad W) = (marked true rs).filter fun m => m.1.bad W && m.2 :=
    List.filter_congr fun m _ => Bool.and_comm _ _
  rw [List.map_append] at hfirst hbad hhashed
  refine ⟨((marked true rs).filter fun m => m.1.bad W && m.2).map (·.1.seq) ++
    ((marked true rs).filter fun m => (m.1.bad W && !m.2) && !listed m.1.seq (uncanonicalSeqs rs)).map (·.1.seq), ?_, ?_⟩
  · rw [filter_marked, hsecond, misnamed, List.map_map]
    rw [hswap] at hfirst
    refine (hfirst.append_right _).trans ?_
    rw [List.append_assoc, List.append_assoc]
    exact (List.perm_append_comm).append_left _
  · rw [filter_marked, hidden, hhidden, List.map_map]
    refine (hbad.trans (hhashed.append_left _)).trans ?_
    rw [List.append_assoc]
    exact (List.perm_append_comm).append_left _

/-- A report names each bad record, where the misnamed stand for the hidden. -/
theorem namesEach_iff (hhex : ∀ t, InDomain (.str (W.sha256 t))) (ho : o.adapter = DEFAULT_ADAPTER) {rs : List RawRecord}
    {report : VerifyReport} (h : verifyLedger W o rs = .ok report) :
    NamesEach W rs report ↔ ((misnamed W rs).map (·.seq)).Perm ((hidden W rs).map (·.seq)) := by
  obtain ⟨shared, hnamed, hbad⟩ := @named_perm W rs
  obtain ⟨regressions, hregressions, -, hseqs⟩ := verifyLedger_named hhex ho h
  constructor
  · rintro ⟨regressions', hregressions', hperm⟩
    rw [hregressions] at hregressions'
    cases hregressions'
    rw [hseqs, List.perm_append_right_iff] at hperm
    exact (List.perm_append_left_iff shared).1 ((hnamed.symm.trans hperm).trans hbad)
  · intro hperm
    refine ⟨regressions, hregressions, ?_⟩
    rw [hseqs, List.perm_append_right_iff]
    exact (hnamed.trans (hperm.append_left shared)).trans hbad.symm

theorem namesAsMany_iff (hhex : ∀ t, InDomain (.str (W.sha256 t))) (ho : o.adapter = DEFAULT_ADAPTER) {rs : List RawRecord}
    {report : VerifyReport} (h : verifyLedger W o rs = .ok report) :
    NamesAsMany W rs report ↔ (misnamed W rs).length = (hidden W rs).length := by
  obtain ⟨shared, hnamed, hbad⟩ := @named_perm W rs
  obtain ⟨regressions, hregressions, hall, hseqs⟩ := verifyLedger_named hhex ho h
  have hleft := hnamed.length_eq
  have hright := hbad.length_eq
  simp only [List.length_append, List.length_map] at hleft hright
  constructor
  · rintro ⟨regressions', hregressions', hlen⟩
    rw [hregressions] at hregressions'
    cases hregressions'
    rw [hseqs, hall] at hlen
    simp only [List.length_append, List.length_map] at hlen
    omega
  · intro hlen
    refine ⟨regressions, hregressions, ?_⟩
    rw [hseqs, hall]
    simp only [List.length_append, List.length_map]
    omega

/-! ## The verifier -/

section
variable {K : Crypto} {tool : KeyRegistry .tool} {host : KeyRegistry .host} {anchored : Option Str}
  {identity : Option ExpectedIdentity} {required : Bool}

theorem verifyLedger_answers_iff (hhex : ∀ t, InDomain (.str (W.sha256 t))) {rs : List RawRecord} :
    (∃ report, verifyLedger W (registryOptions K W tool host anchored identity required) rs = .ok report) ↔
      Along (Handled identity) [] rs := by
  rw [← @verifyChain_ok_iff K W tool host anchored identity required hhex]
  constructor
  · rintro ⟨report, h⟩
    obtain ⟨chain, hchain, -⟩ := bind_eq_ok.1 h
    exact ⟨chain, hchain⟩
  · rintro ⟨report, h⟩
    obtain ⟨whole, hwhole, -⟩ := verifyLedger_covers rfl h
    exact ⟨whole, hwhole⟩

/-- **A report names each bad record exactly where the misnamed records stand for the hidden ones**: one by one, or as
many. And there is a report exactly where each record is handled. -/
theorem bad_records (K : Crypto) (W : World) (hhex : ∀ t, InDomain (.str (W.sha256 t))) (tool : KeyRegistry .tool)
    (host : KeyRegistry .host) (anchored : Option Str) (identity : Option ExpectedIdentity) (required : Bool)
    (rs : List RawRecord) :
    ((∃ report, verifyLedger W (registryOptions K W tool host anchored identity required) rs = .ok report ∧ NamesEach W rs report) ↔
      Along (Handled identity) [] rs ∧ ((misnamed W rs).map (·.seq)).Perm ((hidden W rs).map (·.seq))) ∧
    ((∃ report, verifyLedger W (registryOptions K W tool host anchored identity required) rs = .ok report ∧ NamesAsMany W rs report) ↔
      Along (Handled identity) [] rs ∧ (misnamed W rs).length = (hidden W rs).length) := by
  rw [← @verifyLedger_answers_iff W K tool host anchored identity required hhex]
  constructor
  · constructor
    · rintro ⟨report, h, hn⟩
      exact ⟨⟨report, h⟩, (namesEach_iff hhex rfl h).1 hn⟩
    · rintro ⟨⟨report, h⟩, hn⟩
      exact ⟨report, h, (namesEach_iff hhex rfl h).2 hn⟩
  · constructor
    · rintro ⟨report, h, hn⟩
      exact ⟨⟨report, h⟩, (namesAsMany_iff hhex rfl h).1 hn⟩
    · rintro ⟨⟨report, h⟩, hn⟩
      exact ⟨report, h, (namesAsMany_iff hhex rfl h).2 hn⟩

end

/-- A record of an event, with this stored number. -/
def storedAs (seq : Int) (e : Event) : RawRecord where
  event := .obj e
  seq := .int seq
  hostTs := .str SAMPLE_TS
  previousHash := .str GENESIS_HASH
  recordHash := .str GENESIS_HASH

/-- An event outside the domain, and one of no version. -/
def UNSAFE_EVENT : Event := [(lit "n", .int 9007199254740992)]

theorem storedAs_handled {e : Event} (he : HashableEvent (.obj e) e) (hid : getNull e ID = .null)
    {before : List RawRecord} {seq : Int} (hseq : intsFit (.int seq) = true) : Handled none before (storedAs seq e) where
  event := ⟨e, he⟩
  hostKeyId := by
    intro h
    cases h
  written := ⟨.inr hseq, fun e' he' h => by
    obtain rfl : e = e' := Json.obj.inj he'
    simp [orphaned, hid] at h⟩
  keyFits := by
    intro h
    cases h
  logFits := by
    intro h
    cases h

/-- Under numbers of their own, each of the two is named. -/
theorem bad_records_two : ∃ report,
    verifyLedger hexReference (registryOptions deafCrypto hexReference .empty .empty none none false)
      [storedAs 0 UNSAFE_EVENT, storedAs 1 []] = .ok report ∧
    NamesAsMany hexReference [storedAs 0 UNSAFE_EVENT, storedAs 1 []] report := by
  refine (bad_records deafCrypto hexReference hexReference_hex .empty .empty none none false _).2.2 ⟨?_, ?_⟩
  · exact ⟨storedAs_handled ⟨rfl, ⟨rfl, rfl, by decide⟩, by decide⟩ rfl (by decide),
      storedAs_handled ⟨rfl, ⟨rfl, rfl, by decide⟩, by decide⟩ rfl (by decide), trivial⟩
  · decide

/-- Under one number, one issue names the two. -/
theorem one_issue_for_two : (∃ report,
      verifyLedger hexReference (registryOptions deafCrypto hexReference .empty .empty none none false)
        [storedAs 0 UNSAFE_EVENT, storedAs 0 []] = .ok report) ∧
    ¬ ∃ report, verifyLedger hexReference (registryOptions deafCrypto hexReference .empty .empty none none false)
        [storedAs 0 UNSAFE_EVENT, storedAs 0 []] = .ok report ∧
      NamesAsMany hexReference [storedAs 0 UNSAFE_EVENT, storedAs 0 []] report := by
  constructor
  · refine (verifyLedger_answers_iff hexReference_hex).2 ?_
    exact ⟨storedAs_handled ⟨rfl, ⟨rfl, rfl, by decide⟩, by decide⟩ rfl (by decide),
      storedAs_handled ⟨rfl, ⟨rfl, rfl, by decide⟩, by decide⟩ rfl (by decide), trivial⟩
  · rintro ⟨report, h, hn⟩
    have hlen := (namesAsMany_iff hexReference_hex rfl h).1 hn
    exact absurd hlen (by decide)

end AuditableMcp
