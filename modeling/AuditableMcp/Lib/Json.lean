import Mathlib.Data.List.Sort
import Mathlib.Data.List.Lex
import Mathlib.Data.Rat.Defs
/-!
# JSON values as a Python program holds them

A `str` is its list of code points, a lone surrogate being one of them; an `int` is unbounded; a
`float` is a double, finite ones by their value (`-0.0` is `0`). An object is the list of its
members in insertion order, read by first match.

Two values are *the same JSON value* (`JsonEq`) when they have one normal form (`normForm`): numbers
by value, members in order of their names. This is the equality RFC 8785's canonical form decides;
a serialiser is tied to it by `JcsSpec`.
-/
namespace JsonValue

abbrev Str := List Nat

instance lawfulBEqStr : LawfulBEq Str := inferInstance

/-- A text literal. -/
def lit (s : String) : Str := s.toList.map Char.toNat

/-- Decimal digits, as `str(int)` writes them. -/
def natText (n : Nat) : Str := (Nat.toDigits 10 n).map Char.toNat

def intText : Int → Str
  | .ofNat n => natText n
  | .negSucc n => lit "-" ++ natText (n + 1)

inductive Flt
  | nan
  | inf (neg : Bool)
  | fin (q : Rat)
deriving DecidableEq, Repr

inductive Json
  | null
  | bool (b : Bool)
  | int (i : Int)
  | float (f : Flt)
  | str (s : Str)
  | arr (xs : List Json)
  | obj (ms : List (Str × Json))
deriving Repr

/-- The members of an object. -/
abbrev Members := List (Str × Json)

instance : Inhabited Json := ⟨.null⟩

/-- `dict.get`. -/
def get (ms : Members) (k : Str) : Option Json := ms.lookup k

theorem get_nil (k : Str) : get [] k = none := rfl

theorem get_cons (a : Str) (v : Json) (ms : Members) (k : Str) :
    get ((a, v) :: ms) k = if k = a then some v else get ms k := by
  by_cases h : k = a
  · simp [get, h]
  · have hb : (k == a) = false := beq_false_of_ne h
    simp [get, List.lookup_cons, hb, h]

theorem mem_of_get {ms : Members} {k : Str} {v : Json} (h : get ms k = some v) : (k, v) ∈ ms := by
  induction ms with
  | nil => simp [get_nil] at h
  | cons m ms ih =>
    obtain ⟨a, w⟩ := m
    rw [get_cons] at h
    split at h
    · next hk => cases h; simp [hk]
    · exact List.mem_cons_of_mem _ (ih h)

/-! ## Equality -/

mutual

def Json.beq : Json → Json → Bool
  | .null, .null => true
  | .bool a, .bool b => a == b
  | .int a, .int b => a == b
  | .float a, .float b => a == b
  | .str a, .str b => a == b
  | .arr a, .arr b => beqList a b
  | .obj a, .obj b => beqMembers a b
  | _, _ => false

def beqList : List Json → List Json → Bool
  | [], [] => true
  | a :: as, b :: bs => a.beq b && beqList as bs
  | _, _ => false

def beqMembers : Members → Members → Bool
  | [], [] => true
  | (k, a) :: as, (l, b) :: bs => k == l && a.beq b && beqMembers as bs
  | _, _ => false

end

mutual

theorem Json.beq_iff : ∀ a b : Json, a.beq b = true ↔ a = b
  | .null, b => by cases b <;> simp [Json.beq]
  | .bool _, b => by cases b <;> simp [Json.beq]
  | .int _, b => by cases b <;> simp [Json.beq]
  | .float _, b => by cases b <;> simp [Json.beq]
  | .str _, b => by cases b <;> simp [Json.beq]
  | .arr as, b => by cases b <;> simp [Json.beq, beqList_iff as]
  | .obj as, b => by cases b <;> simp [Json.beq, beqMembers_iff as]

theorem beqList_iff : ∀ as bs : List Json, beqList as bs = true ↔ as = bs
  | [], bs => by cases bs <;> simp [beqList]
  | a :: as, bs => by cases bs <;> simp [beqList, Json.beq_iff a, beqList_iff as]

theorem beqMembers_iff : ∀ as bs : Members, beqMembers as bs = true ↔ as = bs
  | [], bs => by cases bs <;> simp [beqMembers]
  | (k, a) :: as, bs => by
    cases bs <;> simp [beqMembers, Json.beq_iff a, beqMembers_iff as, Prod.ext_iff]

end

instance : DecidableEq Json := fun a b => decidable_of_iff (a.beq b = true) (Json.beq_iff a b)

/-! ## The normal form -/

/-- Members in order of their names; members of one name keep their order. -/
def sortMembers (ms : Members) : Members := ms.insertionSort (fun a b => a.1 ≤ b.1)

mutual

/-- A value's normal form: an integral number is an integer, and members are sorted by name. -/
def normForm : Json → Json
  | .float (.fin q) => if q.den = 1 then .int q.num else .float (.fin q)
  | .arr xs => .arr (normList xs)
  | .obj ms => .obj (sortMembers (normMembers ms))
  | .null => .null
  | .bool b => .bool b
  | .int i => .int i
  | .float .nan => .float .nan
  | .float (.inf s) => .float (.inf s)
  | .str s => .str s

def normList : List Json → List Json
  | [] => []
  | x :: xs => normForm x :: normList xs

def normMembers : Members → Members
  | [] => []
  | (k, v) :: ms => (k, normForm v) :: normMembers ms

end

/-- Equality of JSON values: numbers by value, members in any order. -/
def JsonEq (a b : Json) : Prop := normForm a = normForm b

instance (a b : Json) : Decidable (JsonEq a b) := inferInstanceAs (Decidable (normForm a = normForm b))

theorem JsonEq.refl (a : Json) : JsonEq a a := rfl
theorem JsonEq.symm {a b : Json} (h : JsonEq a b) : JsonEq b a := Eq.symm h
theorem JsonEq.trans {a b c : Json} (h : JsonEq a b) (h' : JsonEq b c) : JsonEq a c := Eq.trans h h'

theorem get_orderedInsert (a : Str × Json) (k : Str) : ∀ ms : Members,
    get (List.orderedInsert (fun a b : Str × Json => a.1 ≤ b.1) a ms) k =
      if k = a.1 then some a.2 else get ms k
  | [] => get_cons a.1 a.2 [] k
  | (l, v) :: ms => by
    by_cases hle : a.1 ≤ l
    · simp only [List.orderedInsert, hle, ↓reduceIte]
      rw [get_cons]
    · simp only [List.orderedInsert, hle, ↓reduceIte]
      rw [get_cons, get_orderedInsert a k ms, get_cons]
      -- the insertion passes `l`, so `l` is not the inserted name
      by_cases hk : k = l
      · have hne : k ≠ a.1 := fun h => hle (le_of_eq (h.symm.trans hk))
        simp [hk, hk ▸ hne]
      · simp [hk]

theorem get_sortMembers (ms : Members) (k : Str) : get (sortMembers ms) k = get ms k := by
  induction ms with
  | nil => rfl
  | cons m ms ih =>
    have hstep : sortMembers (m :: ms) =
        List.orderedInsert (fun a b : Str × Json => a.1 ≤ b.1) m (sortMembers ms) := rfl
    rw [hstep, get_orderedInsert, ih, ← get_cons]

theorem get_normMembers (ms : Members) (k : Str) : get (normMembers ms) k = (get ms k).map normForm := by
  induction ms with
  | nil => rfl
  | cons m ms ih =>
    obtain ⟨a, v⟩ := m
    simp only [normMembers, get_cons, ih]
    split <;> rfl

/-- Equal objects have equal members. -/
theorem JsonEq.get {ms ns : Members} (h : JsonEq (.obj ms) (.obj ns)) (k : Str) :
    (get ms k).map normForm = (get ns k).map normForm := by
  have hs : sortMembers (normMembers ms) = sortMembers (normMembers ns) := by
    simpa [JsonEq, normForm] using h
  rw [← get_normMembers, ← get_sortMembers, hs, get_sortMembers, get_normMembers]

/-- Only a text has the normal form of a text. -/
theorem normForm_eq_str {v : Json} {s : Str} : normForm v = .str s ↔ v = .str s := by
  constructor
  · intro h
    match v with
    | .float (.fin q) => simp only [normForm] at h; split at h <;> cases h
    | .str _ => simpa [normForm] using h
    | .null | .bool _ | .int _ | .float .nan | .float (.inf _) | .arr _ | .obj _ => simp [normForm] at h
  · rintro rfl; rfl

/-- A member that is a text is the same text in every equal object. -/
theorem JsonEq.get_str {ms ns : Members} (h : JsonEq (.obj ms) (.obj ns)) {k s : Str}
    (hk : JsonValue.get ms k = some (.str s)) : JsonValue.get ns k = some (.str s) := by
  have hg := h.get k
  rw [hk] at hg
  cases hn : JsonValue.get ns k with
  | none => simp [hn] at hg
  | some v =>
    have hv : normForm v = .str s := by simpa [hn, normForm] using hg.symm
    rw [normForm_eq_str.1 hv]

/-- Only a boolean has the normal form of a boolean. -/
theorem normForm_eq_bool {v : Json} {b : Bool} : normForm v = .bool b ↔ v = .bool b := by
  constructor
  · intro h
    match v with
    | .float (.fin q) => simp only [normForm] at h; split at h <;> cases h
    | .bool _ => simpa [normForm] using h
    | .null | .str _ | .int _ | .float .nan | .float (.inf _) | .arr _ | .obj _ => simp [normForm] at h
  · rintro rfl; rfl

/-- Only an object has the normal form of an object. -/
theorem eq_obj_of_normForm {v : Json} {m : Members} (h : normForm v = .obj m) : ∃ ns, v = .obj ns := by
  match v with
  | .float (.fin q) => simp only [normForm] at h; split at h <;> cases h
  | .obj ns => exact ⟨ns, rfl⟩
  | .null | .bool _ | .str _ | .int _ | .float .nan | .float (.inf _) | .arr _ => simp [normForm] at h

/-- A member that is there is, up to equality, there in every equal object. -/
theorem JsonEq.get_some {ms ns : Members} (h : JsonEq (.obj ms) (.obj ns)) {k : Str} {v : Json}
    (hk : JsonValue.get ms k = some v) : ∃ w, JsonValue.get ns k = some w ∧ JsonEq v w := by
  have hg := h.get k
  rw [hk] at hg
  obtain ⟨w, hw, heq⟩ := Option.map_eq_some_iff.1 hg.symm
  exact ⟨w, hw, heq.symm⟩

/-! ## Python's `==` and `hash` -/

/-- The number a value counts as in a comparison; a bool is 0 or 1. -/
def pyNumber : Json → Option Flt
  | .bool b => some (.fin (if b then 1 else 0))
  | .int i => some (.fin i)
  | .float f => some f
  | _ => none

/-- Numbers compare by value across their types, and a NaN equals nothing. -/
def numberEq (a b : Json) : Bool :=
  match pyNumber a, pyNumber b with
  | some x, some y => x != .nan && x == y
  | _, _ => false

/-- Every `NaN` that `json.loads` reads is one object. -/
def Json.isNaN : Json → Bool
  | .float .nan => true
  | _ => false

mutual

/-- `a == b`; the items of a list and of a dict are compared by identity first, then by equality. -/
def pyEq : Json → Json → Bool
  | .null, .null => true
  | .str a, .str b => a == b
  | .arr a, .arr b => pyEqList a b
  | .obj a, .obj b => a.length == b.length && pyEqMembers a b
  | a, b => numberEq a b

def pyEqList : List Json → List Json → Bool
  | [], [] => true
  | a :: as, b :: bs => (a.isNaN && b.isNaN || pyEq a b) && pyEqList as bs
  | _, _ => false

/-- Every member of one object is, by name, a member of the other. -/
def pyEqMembers : Members → Members → Bool
  | [], _ => true
  | (k, v) :: ms, ns => (match get ns k with
    | some w => v.isNaN && w.isNaN || pyEq v w
    | none => false) && pyEqMembers ms ns

end

/-- What a set or a tuple takes for the same: one object, or equal ones. -/
def pySame (a b : Json) : Bool := a.isNaN && b.isNaN || pyEq a b

/-- Whether `hash(v)` is defined: a list and a dict have none. -/
def Json.hashable : Json → Bool
  | .arr _ => false
  | .obj _ => false
  | _ => true

@[simp] theorem pyEq_str {v : Json} {s : Str} : pyEq v (.str s) = true ↔ v = .str s := by
  cases v <;> simp [pyEq, numberEq, pyNumber]

@[simp] theorem str_pyEq {v : Json} {s : Str} : pyEq (.str s) v = true ↔ v = .str s := by
  cases v with
  | str t => simp only [pyEq, beq_iff_eq, Json.str.injEq]; exact eq_comm
  | _ => simp [pyEq, numberEq, pyNumber]

@[simp] theorem null_pyEq {v : Json} : pyEq .null v = true ↔ v = .null := by
  cases v <;> simp [pyEq, numberEq, pyNumber]

@[simp] theorem pyEq_null {v : Json} : pyEq v .null = true ↔ v = .null := by
  cases v <;> simp [pyEq, numberEq, pyNumber]

@[simp] theorem str_pySame {v : Json} {s : Str} : pySame (.str s) v = true ↔ v = .str s := str_pyEq

@[simp] theorem null_pySame {v : Json} : pySame .null v = true ↔ v = .null := null_pyEq

theorem pySame_null {v : Json} : pySame v .null = true ↔ v = .null := by
  cases v <;> simp [pySame, Json.isNaN, pyEq, numberEq, pyNumber]

/-- The natural number a value equals, if it equals one. -/
def pyIndex (v : Json) : Option Nat :=
  match pyNumber v with
  | some (.fin q) => if q.den = 1 ∧ 0 ≤ q.num then some q.num.toNat else none
  | _ => none

theorem pyEq_int {v : Json} {i : Int} : pyEq v (.int i) = true ↔ pyNumber v = some (.fin i) := by
  cases v <;> simp [pyEq, numberEq, pyNumber]
  · next f => cases f <;> simp

theorem pyEq_nat {v : Json} {n : Nat} : pyEq v (.int n) = true ↔ pyIndex v = some n := by
  rw [pyEq_int]
  unfold pyIndex
  constructor
  · intro h; simp [h]
  · intro h
    split at h
    · next q hq =>
      split at h
      · next hd =>
        simp only [Option.some.injEq] at h
        have hnum : q.num = (n : Int) := by omega
        have hq' : q = ((n : Int) : Rat) := Rat.ext (by simpa using hnum) (by simpa using hd.1)
        rw [hq, hq']
      · cases h
    · cases h

theorem pyIndex_normForm (v : Json) : pyIndex (normForm v) = pyIndex v := by
  match v with
  | .float (.fin q) =>
    simp only [normForm]
    split
    · next hd => simp [pyIndex, pyNumber, hd]
    · rfl
  | .null | .bool _ | .int _ | .float .nan | .float (.inf _) | .str _ | .arr _ | .obj _ =>
    simp [normForm, pyIndex, pyNumber]

/-- Equal JSON values equal the same natural number, if either equals one. -/
theorem JsonEq.pyIndex {v w : Json} (h : JsonEq v w) : pyIndex v = pyIndex w := by
  rw [← pyIndex_normForm v, h, pyIndex_normForm w]

@[simp] theorem pyIndex_nat (n : Nat) : pyIndex (.int n) = some n := by
  simp [JsonValue.pyIndex, pyNumber]

/-- Only a text is the same JSON value as a text. -/
theorem jsonEq_str {v : Json} {s : Str} : JsonEq (.str s) v ↔ v = .str s := by
  rw [JsonEq, eq_comm]
  exact normForm_eq_str

/-! ## Canonical serialisation -/

/-- What a serialiser owes RFC 8785 on the values of its domain: one text for one JSON value, and
different texts for different ones. -/
structure JcsSpec (dumps : Json → Str) (dom : Json → Prop) : Prop where
  eq_iff : ∀ a b, dom a → dom b → (dumps a = dumps b ↔ JsonEq a b)

end JsonValue
