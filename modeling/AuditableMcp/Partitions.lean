import AuditableMcp.Lib.Dict
import AuditableMcp.Lib.Shards
import AuditableMcp.SharedStore
/-!
# `storage/memory.py`: many partitions over one repository

Any number of hosts, each of its own partition (`host.py:229`), over one `InMemoryLedgerRepository`.

| here | there |
| --- | --- |
| `Repository` | `_by_partition` (`memory.py:14-16`) |
| `Repository.append`, `Repository.loadTail`, `Repository.readAll` | `append`, `load_tail`, `read_all` (`:19-40`) |

The hosts of a partition are answered as over a store of their own, so the repository is its partitions' stores side by
side (`partitions_apart`).
-/
namespace AuditableMcp

open JsonValue HashChain Effect

/-! ## The repository -/

/-- The sealed records of each partition. -/
abbrev Repository : Type := Dict Str (List SealedRecord)

/-- What is stored for a partition. -/
def Repository.records (d : Repository) (partition : Str) : List SealedRecord := (d.get partition).getD []

/-- `setdefault(partition, [])`. -/
def Repository.entered (d : Repository) (partition : Str) : Repository :=
  if (d.get partition).isSome then d else d.set partition []

/-- `append`: the partition has its entry afterwards, also where the record was refused. -/
def Repository.append (d : Repository) (partition : Str) (r : SealedRecord) : Except Raise Unit × Repository :=
  if r.seq = ((d.entered partition).records partition).length then
    (.ok (), (d.entered partition).set partition ((d.entered partition).records partition ++ [r]))
  else (.error .repositoryError, d.entered partition)

def Repository.loadTail (d : Repository) (partition : Str) : Option SealedRecord :=
  (d.get partition).bind List.getLast?

def Repository.readAll (d : Repository) (partition : Str) : List SealedRecord := (d.get partition).getD []

theorem records_set (d : Repository) (p k : Str) (rs : List SealedRecord) :
    Repository.records (d.set p rs) k = if k = p then rs else d.records k := by
  simp only [Repository.records, Dict.get_set, beq_iff_eq]
  split <;> rfl

/-- An entry is no record. -/
theorem records_entered (d : Repository) (p k : Str) : (d.entered p).records k = d.records k := by
  unfold Repository.entered
  split
  · rfl
  · next hnone =>
    rw [records_set]
    split
    · next hk =>
      subst hk
      rw [Repository.records, Option.not_isSome_iff_eq_none.1 hnone]
      rfl
    · rfl

/-- `append` leaves the other partitions. -/
theorem append_others (d : Repository) {p k : Str} (h : k ≠ p) (r : SealedRecord) :
    (d.append p r).2.records k = d.records k := by
  unfold Repository.append
  split
  · rw [records_set, if_neg h, records_entered]
  · exact records_entered d p k

/-- In its own it is the conditional append. -/
theorem append_own (d : Repository) (p : Str) (r : SealedRecord) :
    ((d.append p r).1 = .ok () ∧ storeAppend (d.records p) r = .ok ((d.append p r).2.records p)) ∨
      ((d.append p r).1 = .error .repositoryError ∧ storeAppend (d.records p) r = .error .repositoryError ∧
        (d.append p r).2.records p = d.records p) := by
  unfold Repository.append storeAppend
  simp only [records_entered]
  split
  · exact .inl ⟨rfl, by simp [records_set]⟩
  · exact .inr ⟨rfl, rfl, records_entered d p p⟩

theorem loadTail_eq (d : Repository) (p : Str) : d.loadTail p = (d.records p).getLast? := by
  unfold Repository.loadTail Repository.records
  cases d.get p <;> rfl

/-! ## Hosts over it -/

/-- What a host of a partition is answered. A call may fail, an append after it stored too. -/
def repositoryEnv (partition : Str) (d : Repository) : (q : Query) → Reply q → Repository → Prop
  | .append r, x, d' => d' = (d.append partition r).2 ∧ (x = (d.append partition r).1 ∨ ∃ e, x = .error e) ∨
      (d' = d ∧ ∃ e, x = .error e)
  | .loadTail, x, d' => d' = d ∧ (x = .ok (d.loadTail partition) ∨ ∃ e, x = .error e)
  | .readAll, x, d' => d' = d ∧ (x = .ok (d.readAll partition) ∨ ∃ e, x = .error e)
  | _, _, d' => d' = d

variable {ι : Type} {home : ι → Str}

/-- The repository answers a host as a store of its partition's own does, and keeps the other partitions. -/
theorem repository_in : AnswersIn home Repository.records (fun i => repositoryEnv (home i)) (fun _ => storeEnv) := by
  intro i d q x d' h
  cases q with
  | append r =>
    rcases h with ⟨rfl, hx⟩ | ⟨rfl, hx⟩
    · refine ⟨?_, fun k hk => append_others d hk r⟩
      rcases append_own d (home i) r with ⟨-, hstored⟩ | ⟨hrefused, -, hsame⟩
      · exact .inl hstored
      · exact .inr ⟨hsame, hx.elim (fun h => ⟨_, h.trans hrefused⟩) id⟩
    · exact ⟨.inr ⟨rfl, hx⟩, fun _ _ => rfl⟩
  | loadTail =>
    obtain ⟨rfl, hx⟩ := h
    rw [loadTail_eq] at hx
    exact ⟨⟨rfl, hx⟩, fun _ _ => rfl⟩
  | readAll =>
    obtain ⟨rfl, hx⟩ := h
    exact ⟨⟨rfl, hx⟩, fun _ _ => rfl⟩
  | currentTime | verify _ | sign _ | clockNow | persistenceAvailable =>
    cases h
    exact ⟨rfl, fun _ _ => rfl⟩

theorem repository_of : AnswersOf home Repository.records (fun i => repositoryEnv (home i)) (fun _ => storeEnv) := by
  intro i d q x t h
  cases q with
  | append r =>
    rcases h with h | ⟨rfl, hx⟩
    · rcases append_own d (home i) r with ⟨hok, hstored⟩ | ⟨-, hrefused, -⟩
      · refine ⟨_, .inl ⟨rfl, ?_⟩, Except.ok.inj (hstored.symm.trans h), fun k hk => append_others d hk r⟩
        cases x with
        | ok _ => exact .inl hok.symm
        | error e => exact .inr ⟨e, rfl⟩
      · cases hrefused.symm.trans h
    · exact ⟨d, .inr ⟨rfl, hx⟩, rfl, fun _ _ => rfl⟩
  | loadTail =>
    obtain ⟨rfl, hx⟩ := h
    exact ⟨d, ⟨rfl, by rwa [loadTail_eq]⟩, rfl, fun _ _ => rfl⟩
  | readAll =>
    obtain ⟨rfl, hx⟩ := h
    exact ⟨d, ⟨rfl, hx⟩, rfl, fun _ _ => rfl⟩
  | currentTime | verify _ | sign _ | clockNow | persistenceAvailable =>
    cases h
    exact ⟨d, rfl, rfl, fun _ _ => rfl⟩

/-- A pool of hosts over one repository, `home` the `partition` each was built with. -/
abbrev Repository.Step (W : World) [DecidableEq ι] (home : ι → Str) :
    Pool Query Reply Repository (Option Member) ι → Pool Query Reply Repository (Option Member) ι → Prop :=
  Pool.StepAt (fun i => repositoryEnv (home i)) (Born W) (Operates W)

/-- No partition, and no host yet. -/
def Repository.start : Pool Query Reply Repository (Option Member) ι := ⟨.empty, fun _ => none⟩

variable {W : World} [DecidableEq ι]

/-- **Partitions do not meet.** In every interleaving of any number of hosts of any partitions over one repository,
whatever their environments answer: what the hosts of a partition did is what they could do over a store of their own;
what they could do there they can still do, and the other partitions and their hosts are left as they were; and each
partition is one chain. -/
theorem partitions_apart {S : Pool Query Reply Repository (Option Member) ι}
    (hr : Relation.ReflTransGen (Repository.Step W home) Repository.start S) (p : Str) :
    Relation.ReflTransGen (Partition.Step W) Partition.start (S.at home Repository.records p) ∧
      (∀ T, Relation.ReflTransGen (Partition.Step W) (S.at home Repository.records p) T →
        ∃ S', Relation.ReflTransGen (Repository.Step W home) S S' ∧ S.Replaced home Repository.records S' p T) ∧
      ValidChain W (S.shared.records p) := by
  have hown : Relation.ReflTransGen (Partition.Step W) Partition.start (S.at home Repository.records p) :=
    Pool.runs_const.1 (Pool.runs_at repository_in hr p)
  have hempty : ValidChain W [] := trivial
  exact ⟨hown, fun T hT => Pool.runs_of_at repository_of (Pool.runs_const.2 hT),
    pool_invariant partition_guarantee hempty hown⟩

/-! ## Two hosts -/

/-- A host of any partition seals the sample attempt first. -/
theorem partition_sample (i : ι) : ∃ T : Partition ι,
    Relation.ReflTransGen (Partition.Step reference) Partition.start T ∧ T.shared = [sampleRecord] := by
  obtain ⟨h', hrun⟩ := sample_stored
  have hborn : Relation.ReflTransGen (@Partition.Step reference ι _) Partition.start _ :=
    Pool.runs_const.1 (Pool.born_alone i rfl (.constructed sampleConfig rfl) (.ret _ _))
  have hopen := hborn.trans (Pool.runs_const.1 (Pool.op_alone i (Function.update_self ..)
    (.op ⟨sampleConfig, .new⟩ (.openSession SAMPLE_SESSION)) (Runs.bind (sampleHost_opens []) (.ret _ _))))
  exact ⟨_, hopen.trans (Pool.runs_const.1 (Pool.op_alone i (Function.update_self ..)
    (.op ⟨sampleConfig, sampleHost⟩ (.attempt sampleAttempt none none)) (Runs.bind hrun (.ret _ _)))), rfl⟩

def twoHomes (first : Bool) : Str := if first then lit "a" else lit "b"

/-- Two tenants' hosts seal the same event, each first in its own chain. -/
theorem partitions_apart_two : ∃ S : Pool Query Reply Repository (Option Member) Bool,
    Relation.ReflTransGen (Repository.Step reference twoHomes) Repository.start S ∧
      S.shared.records (lit "a") = [sampleRecord] ∧ S.shared.records (lit "b") = [sampleRecord] ∧
      ValidChain reference (S.shared.records (lit "a")) := by
  obtain ⟨T, hT, hTshared⟩ := partition_sample (⟨true, rfl⟩ : {i : Bool // twoHomes i = lit "a"})
  obtain ⟨S, hS, rfl, hSb⟩ := Pool.runs_of_at (S := Repository.start) repository_of (Pool.runs_const.2 hT)
  obtain ⟨U, hU, hUshared⟩ := partition_sample (⟨false, rfl⟩ : {i : Bool // twoHomes i = lit "b"})
  -- the second partition is still as it was at the start
  have hstart : S.at twoHomes Repository.records (lit "b") = Partition.start := hSb (lit "b") (by decide)
  obtain ⟨V, hV, rfl, hVa⟩ := (partitions_apart hS (lit "b")).2.1 U (hstart ▸ hU)
  have hsame := congrArg Pool.shared (hVa (lit "a") (by decide))
  exact ⟨V, hS.trans hV, hsame.trans hTshared, hUshared, (partitions_apart (hS.trans hV) (lit "a")).2.2⟩

end AuditableMcp
