import AuditableMcp.Canonical
import AuditableMcp.Lib.HashChain
/-!
# `ledger.py`: sealed records and the in-memory chain

| here | there |
| --- | --- |
| `SealedRecord`        | `ledger.py:15-31`, the types its annotations give |
| `Ledger`, `Ledger.seal`, `commit`, `append`, `resumeFrom`, `digest` | `ledger.py:81-159` |
| `ValidChain`          | what `ledger.py:1-8` and `storage/repository.py` call one chain |

`RawRecord` is a `SealedRecord` as `from_dict` may rebuild it from a store: Python checks none of the
annotations, so every member may be any JSON value (`ledger.py:56-75`).
-/
namespace AuditableMcp

open JsonValue HashChain

structure SealedRecord where
  event : Event
  seq : Nat
  hostTs : Str
  previousHash : Str
  recordHash : Str
  hostSignature : Option Str := none
  hostKeyId : Option Str := none
  logId : Option Str := none
deriving DecidableEq

structure Ledger where
  records : List SealedRecord
  count : Nat
  tailHash : Str
deriving DecidableEq

/-- `Ledger.__init__` (`ledger.py:84-91`). -/
def Ledger.empty : Ledger := ⟨[], 0, GENESIS_HASH⟩

/-- `Ledger.seal` (`ledger.py:99-119`); the error is a `CanonicalizationError`. -/
def Ledger.seal (W : World) (l : Ledger) (event : Event) (hostTs : Str) : Except Str SealedRecord :=
  match computeRecordHash W (.obj event) (.int l.count) (.str hostTs) (.str l.tailHash) with
  | .ok h => .ok { event, seq := l.count, hostTs, previousHash := l.tailHash, recordHash := h }
  | .error m => .error m

/-- `Ledger.commit` (`ledger.py:122-126`). -/
def Ledger.commit (l : Ledger) (r : SealedRecord) : Ledger := ⟨l.records ++ [r], l.count + 1, r.recordHash⟩

/-- `Ledger.append` (`ledger.py:129-133`). -/
def Ledger.append (W : World) (l : Ledger) (event : Event) (hostTs : Str) : Except Str Ledger :=
  match l.seal W event hostTs with
  | .ok r => .ok (l.commit r)
  | .error m => .error m

/-- `Ledger.resume_from` (`ledger.py:136-148`). -/
def Ledger.resumeFrom (tail : Option SealedRecord) : Ledger :=
  match tail with
  | some r => ⟨[], r.seq + 1, r.recordHash⟩
  | none => .empty

/-- `Ledger.digest` (`ledger.py:157-159`). -/
def Ledger.digest (l : Ledger) : Str := l.tailHash

/-! ## The chain a store holds -/

variable (W : World)

/-- `record_hash` is the hash of the record's own preimage. -/
def SealedRecord.Sealed (r : SealedRecord) : Prop :=
  computeRecordHash W (.obj r.event) (.int r.seq) (.str r.hostTs) (.str r.previousHash) = .ok r.recordHash

def links : Links SealedRecord Str := ⟨(·.seq), (·.previousHash), (·.recordHash), SealedRecord.Sealed W⟩

/-- One valid chain, from the genesis link. -/
def ValidChain (rs : List SealedRecord) : Prop := Chain (links W) 0 GENESIS_HASH rs

/-- The last `record_hash`, or the genesis link. -/
abbrev tailHashOf (rs : List SealedRecord) : Str := tail (links W) GENESIS_HASH rs

/-- The ledger continues `rs`: its next position and its link are those after `rs`. -/
def Ledger.At (l : Ledger) (rs : List SealedRecord) : Prop :=
  l.count = rs.length ∧ l.tailHash = tailHashOf W rs

variable {W}

theorem Ledger.empty_at : Ledger.empty.At W [] := ⟨rfl, rfl⟩

theorem Ledger.At.commit {l : Ledger} {rs : List SealedRecord} (h : l.At W rs) (r : SealedRecord) :
    (l.commit r).At W (rs ++ [r]) :=
  ⟨by simp [Ledger.commit, h.1], by simp [Ledger.commit, tailHashOf, links]⟩

/-- Resuming from the last record of a chain continues the chain. -/
theorem Ledger.resumeFrom_at {rs : List SealedRecord} (hc : ValidChain W rs) :
    (Ledger.resumeFrom rs.getLast?).At W rs := by
  rcases List.eq_nil_or_concat' rs with rfl | ⟨rs, r, rfl⟩
  · exact Ledger.empty_at
  · obtain ⟨_, hseq, _⟩ := (chain_concat (links W)).1 hc
    simp only [links, Nat.zero_add] at hseq
    rw [List.getLast?_concat]
    exact ⟨by simp [Ledger.resumeFrom, hseq], by simp [Ledger.resumeFrom, tailHashOf, links]⟩

/-- What `seal` builds: the next record of the chain the ledger continues. -/
theorem Ledger.seal_eq_ok {l : Ledger} {e : Event} {ts : Str} {r : SealedRecord}
    (h : l.seal W e ts = .ok r) : r.event = e ∧ r.seq = l.count ∧ r.previousHash = l.tailHash ∧
      r.hostTs = ts ∧ r.Sealed W := by
  unfold Ledger.seal at h
  split at h
  · next hh => cases h; exact ⟨rfl, rfl, rfl, rfl, hh⟩
  · cases h

/-- A record is sealed uncountersigned. -/
theorem Ledger.seal_unsigned {l : Ledger} {e : Event} {ts : Str} {r : SealedRecord}
    (h : l.seal W e ts = .ok r) : r.hostSignature = none ∧ r.hostKeyId = none ∧ r.logId = none := by
  unfold Ledger.seal at h
  split at h
  · cases h; exact ⟨rfl, rfl, rfl⟩
  · cases h

/-- A record sealed at the end of a chain extends it, whatever countersignature it carries. -/
theorem validChain_concat {l : Ledger} {rs : List SealedRecord} {r : SealedRecord} (hc : ValidChain W rs)
    (hl : l.At W rs) (hseq : r.seq = l.count) (hprev : r.previousHash = l.tailHash) (hs : r.Sealed W) :
    ValidChain W (rs ++ [r]) :=
  (chain_concat (links W)).2
    ⟨hc, by simp [links, hseq, hl.1], hprev.trans hl.2, hs⟩

/-- A valid chain, record by record: position, link to the record before it, and own hash. -/
theorem ValidChain.getElem? {rs : List SealedRecord} (h : ValidChain W rs) {i : Nat} {r : SealedRecord}
    (hr : rs[i]? = some r) : r.seq = i ∧ r.Sealed W ∧
      r.previousHash = (if i = 0 then GENESIS_HASH else ((rs[i - 1]?).map (·.recordHash)).getD []) := by
  obtain ⟨hseq, hprev, hok⟩ := chain_getElem? (links W) h hr
  refine ⟨hseq, hok, ?_⟩
  have hp : r.previousHash = tailHashOf W (rs.take i) := hprev
  cases i with
  | zero => simpa using hp
  | succ j =>
    have hi := (List.getElem?_eq_some_iff.1 hr).1
    have hj : rs[j]? = some rs[j] := List.getElem?_eq_getElem (by omega)
    rw [hp, tailHashOf, tail_take_succ (links W) GENESIS_HASH hj]
    simp [hj, links]

/-! ## Records read back from a store -/

structure RawRecord where
  event : Json
  seq : Json
  hostTs : Json
  previousHash : Json
  recordHash : Json
  hostSignature : Json := .null
  hostKeyId : Json := .null
  logId : Json := .null
deriving DecidableEq

def optText : Option Str → Json
  | some s => .str s
  | none => .null

/-- A record as a verifier is handed it (`to_dict` and `from_dict`, `ledger.py:34-75`). -/
def SealedRecord.raw (r : SealedRecord) : RawRecord where
  event := .obj r.event
  seq := .int r.seq
  hostTs := .str r.hostTs
  previousHash := .str r.previousHash
  recordHash := .str r.recordHash
  hostSignature := optText r.hostSignature
  hostKeyId := optText r.hostKeyId
  logId := optText r.logId

end AuditableMcp
