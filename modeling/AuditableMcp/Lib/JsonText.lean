import AuditableMcp.Lib.Dict
import AuditableMcp.Lib.Jcs
import Mathlib.Data.Nat.Prime.Basic
/-!
# Python's `json`: a value as a text, and a text as a value

`dumps` is `json.dumps` with the shortest separators and non-ASCII characters as they are, `loads` is `json.loads`. The
reader takes one character at a time: a `Reader` is where it stands, with the arrays and objects that are open. A
limit on these is where Python's recursion ends (`loads_tooDeep_iff`).

`loads_dumps`: what is written is read back. How Python writes a float, and what float a text is, are parameters
(`FloatText`), of which only that they agree on the doubles is used.
-/
namespace JsonValue

/-- `float.__repr__`, and `float` of a text. -/
structure FloatText where
  repr : Rat → Str
  read : Str → Flt

/-- The finite floats. -/
def IsDouble (q : Rat) : Prop := ∃ m e : Int, m.natAbs < 9007199254740992 ∧ -1074 ≤ e ∧ e ≤ 971 ∧ q = m * (2 : Rat) ^ e

/-- `sys.int_info.default_max_str_digits`. -/
def MAX_STR_DIGITS : Nat := 4300

/-! ## Writing -/

section
variable (F : FloatText)

mutual

def dumpText : Json → Str
  | .null => lit "null"
  | .bool true => lit "true"
  | .bool false => lit "false"
  | .int i => intText i
  | .float (.fin q) => F.repr q
  | .float .nan => lit "NaN"
  | .float (.inf false) => lit "Infinity"
  | .float (.inf true) => lit "-Infinity"
  | .str s => writeText s
  | .arr xs => 91 :: dumpElems xs
  | .obj ms => 123 :: dumpMembers ms

def dumpElems : List Json → Str
  | [] => [93]
  | x :: xs => dumpText x ++ dumpMoreElems xs

def dumpMoreElems : List Json → Str
  | [] => [93]
  | x :: xs => 44 :: (dumpText x ++ dumpMoreElems xs)

def dumpMembers : Members → Str
  | [] => [125]
  | (k, v) :: ms => writeText k ++ 58 :: (dumpText v ++ dumpMoreMembers ms)

def dumpMoreMembers : Members → Str
  | [] => [125]
  | (k, v) :: ms => 44 :: (writeText k ++ 58 :: (dumpText v ++ dumpMoreMembers ms))

end

end

mutual

/-- Every text in the value, the names included, is of such characters. -/
def allText (p : Nat → Bool) : Json → Bool
  | .str s => s.all p
  | .arr xs => allTextList p xs
  | .obj ms => allTextMembers p ms
  | _ => true

def allTextList (p : Nat → Bool) : List Json → Bool
  | [] => true
  | x :: xs => allText p x && allTextList p xs

def allTextMembers (p : Nat → Bool) : Members → Bool
  | [] => true
  | (k, v) :: ms => k.all p && allText p v && allTextMembers p ms

end

mutual

/-- How many arrays and objects stand inside each other. -/
def nesting : Json → Nat
  | .arr xs => nestingList xs + 1
  | .obj ms => nestingMembers ms + 1
  | _ => 0

def nestingList : List Json → Nat
  | [] => 0
  | x :: xs => max (nesting x) (nestingList xs)

def nestingMembers : Members → Nat
  | [] => 0
  | (_, v) :: ms => max (nesting v) (nestingMembers ms)

end

mutual

/-- No `int` is too long to be written. -/
def intsFit : Json → Bool
  | .int i => (natText i.natAbs).length ≤ MAX_STR_DIGITS
  | .arr xs => intsFitList xs
  | .obj ms => intsFitMembers ms
  | _ => true

def intsFitList : List Json → Bool
  | [] => true
  | x :: xs => intsFit x && intsFitList xs

def intsFitMembers : Members → Bool
  | [] => true
  | (_, v) :: ms => intsFit v && intsFitMembers ms

end

mutual

/-- A value as a program holds it, and no NaN in it: floats are doubles, and a `dict` has a name once. -/
def Proper : Json → Prop
  | .float .nan => False
  | .float (.fin q) => IsDouble q
  | .arr xs => ProperList xs
  | .obj ms => (ms.map Prod.fst).Nodup ∧ ProperMembers ms
  | _ => True

def ProperList : List Json → Prop
  | [] => True
  | x :: xs => Proper x ∧ ProperList xs

def ProperMembers : Members → Prop
  | [] => True
  | (_, v) :: ms => Proper v ∧ ProperMembers ms

end

/-- Why a value is not written, or a text not read. -/
inductive Fault
  /-- `ValueError`. -/
  | malformed
  /-- `RecursionError`. -/
  | tooDeep
deriving DecidableEq

/-- `json.dumps(value, ensure_ascii=False, separators=(',', ':'))`, where so many arrays and objects may nest. -/
def dumps (F : FloatText) (limit : Nat) (v : Json) : Except Fault Str :=
  if limit < nesting v then .error .tooDeep
  else if intsFit v then .ok (dumpText F v)
  else .error .malformed

/-! ## Reading -/

def isBlank (c : Nat) : Bool := c = 32 || c = 9 || c = 10 || c = 13

/-- A character that ends a number or a name such as `null`. -/
def isStop (c : Nat) : Bool := isBlank c || c = 44 || c = 93 || c = 125 || c = 58 || c = 34 || c = 91 || c = 123

def isDigit (c : Nat) : Bool := 48 ≤ c && c ≤ 57

def hexValue (c : Nat) : Option Nat :=
  if 48 ≤ c && c ≤ 57 then some (c - 48)
  else if 97 ≤ c && c ≤ 102 then some (c - 87)
  else if 65 ≤ c && c ≤ 70 then some (c - 55)
  else none

def hexFour (a b c d : Nat) : Option Nat := do
  let a ← hexValue a
  let b ← hexValue b
  let c ← hexValue c
  let d ← hexValue d
  pure (((a * 16 + b) * 16 + c) * 16 + d)

/-- The character after a backslash stands for. -/
def simpleEscape (c : Nat) : Option Nat :=
  if c = 34 || c = 92 || c = 47 then some c
  else if c = 98 then some 8
  else if c = 102 then some 12
  else if c = 110 then some 10
  else if c = 114 then some 13
  else if c = 116 then some 9
  else none

def isHigh (c : Nat) : Bool := 0xD800 ≤ c && c < 0xDC00

def isLow (c : Nat) : Bool := 0xDC00 ≤ c && c < 0xE000

/-- A text from what stands between its quotes, after the first half of a surrogate pair where there is one. -/
def unescape (high : Option Nat) : Str → Option Str
  | 92 :: 117 :: a :: b :: c :: d :: rest =>
    (hexFour a b c d).bind fun unit =>
      match high with
      | none => if isHigh unit then unescape (some unit) rest else (unescape none rest).map (unit :: ·)
      | some first =>
        if isLow unit then (unescape none rest).map fun s => (0x10000 + (first - 0xD800) * 1024 + (unit - 0xDC00)) :: s
        else if isHigh unit then (unescape (some unit) rest).map (first :: ·)
        else (unescape none rest).map fun s => first :: unit :: s
  | 92 :: c :: rest => (simpleEscape c).bind fun c => (unescape none rest).map fun s => high.toList ++ c :: s
  | c :: rest => if c = 92 || c < 32 then none else (unescape none rest).map fun s => high.toList ++ c :: s
  | [] => some high.toList

/-- The value of decimal digits. -/
def decimal (s : Str) : Nat := s.foldl (fun n c => n * 10 + (c - 48)) 0

/-- A text after its minus. -/
def unsigned : Str → Str
  | 45 :: s => s
  | s => s

/-- `-?(0|[1-9][0-9]*)` -/
def isIntText (s : Str) : Bool :=
  let digits := unsigned s
  digits.all isDigit && !digits.isEmpty && (digits.head? != some 48 || digits.length == 1)

def intOf (s : Str) : Int := if s.head? = some 45 then -(decimal (unsigned s) : Int) else decimal (unsigned s)

/-- `(\.[0-9]+)?`, and what follows it. -/
def fraction : Str → Option Str
  | 46 :: s => if (s.takeWhile isDigit).isEmpty then none else some (s.dropWhile isDigit)
  | s => some s

/-- `([eE][+-]?[0-9]+)?`, to the end. -/
def isExponent : Str → Bool
  | [] => true
  | c :: s =>
    let digits := match s with
      | 43 :: s => s
      | 45 :: s => s
      | s => s
    (c = 101 || c = 69) && digits.all isDigit && !digits.isEmpty

def isNumberChar (c : Nat) : Bool := isDigit c || c = 43 || c = 45 || c = 46 || c = 69 || c = 101

/-- A number of JSON that is no `int`. -/
def isFloatText (s : Str) : Bool :=
  let whole := (unsigned s).takeWhile isDigit
  !isIntText s && isIntText whole && s.all isNumberChar && ((fraction ((unsigned s).dropWhile isDigit)).elim false isExponent)

/-- The value of a number or of a name. -/
def readToken (F : FloatText) (s : Str) : Option Json :=
  if s = lit "null" then some .null
  else if s = lit "true" then some (.bool true)
  else if s = lit "false" then some (.bool false)
  else if s = lit "NaN" then some (.float .nan)
  else if s = lit "Infinity" then some (.float (.inf false))
  else if s = lit "-Infinity" then some (.float (.inf true))
  else if isIntText s then if (unsigned s).length ≤ MAX_STR_DIGITS then some (.int (intOf s)) else none
  else if isFloatText s then some (.float (F.read s))
  else none

/-- An array or an object that is open, an object with the name its next value has. -/
inductive Container
  | arr (items : List Json)
  | obj (members : Members) (name : Option Str)

/-- What comes next. -/
inductive Mode
  | value
  /-- The first value of an array, or its end. -/
  | first
  /-- The first name of an object, or its end. -/
  | firstName
  | name
  | colon
  /-- The value is complete. -/
  | done
  | text (isName : Bool) (raw : Str) (escaped : Bool)
  | token (raw : Str)

structure Reader where
  mode : Mode
  stack : List Container
  top : Option Json

namespace Reader

variable (F : FloatText) (limit : Option Nat)

def init : Reader := ⟨.value, [], none⟩

/-- A value is complete. -/
def deliver (v : Json) (r : Reader) : Except Fault Reader :=
  match r.stack with
  | [] => .ok ⟨.done, [], some v⟩
  | .arr items :: stack => .ok ⟨.done, .arr (items ++ [v]) :: stack, r.top⟩
  | .obj members (some k) :: stack => .ok ⟨.done, .obj (Dict.assign k v members) none :: stack, r.top⟩
  | .obj _ none :: _ => .error .malformed

/-- An array or an object begins. -/
def opens (c : Container) (mode : Mode) (r : Reader) : Except Fault Reader :=
  if limit.elim false (· ≤ r.stack.length) then .error .tooDeep else .ok ⟨mode, c :: r.stack, r.top⟩

/-- The array or object ends. -/
def closes (bracket : Nat) (r : Reader) : Except Fault Reader :=
  match r.stack with
  | .arr items :: stack => if bracket = 93 then deliver (.arr items) ⟨.done, stack, r.top⟩ else .error .malformed
  | .obj members none :: stack =>
    if bracket = 125 then deliver (.obj members) ⟨.done, stack, r.top⟩ else .error .malformed
  | _ => .error .malformed

/-- A text ends: a name of the object, or a value. -/
def endText (isName : Bool) (raw : Str) (r : Reader) : Except Fault Reader :=
  match unescape none raw, isName, r.stack with
  | some s, false, _ => deliver (.str s) r
  | some s, true, .obj members none :: stack => .ok ⟨.colon, .obj members (some s) :: stack, r.top⟩
  | _, _, _ => .error .malformed

/-- A character after a value. -/
def afterValue (c : Nat) (r : Reader) : Except Fault Reader :=
  if isBlank c then .ok r
  else if c = 44 then
    match r.stack with
    | .arr _ :: _ => .ok { r with mode := .value }
    | .obj _ _ :: _ => .ok { r with mode := .name }
    | [] => .error .malformed
  else r.closes c

/-- The character that begins a value. -/
def beginValue (c : Nat) (r : Reader) : Except Fault Reader :=
  if isBlank c then .ok r
  else if c = 34 then .ok { r with mode := .text false [] false }
  else if c = 91 then r.opens limit (.arr []) .first
  else if c = 123 then r.opens limit (.obj [] none) .firstName
  else if isStop c then .error .malformed
  else .ok { r with mode := .token [c] }

/-- The character that begins a name. -/
def beginName (c : Nat) (r : Reader) : Except Fault Reader :=
  if isBlank c then .ok r
  else if c = 34 then .ok { r with mode := .text true [] false }
  else .error .malformed

/-- One character. -/
def step (r : Reader) (c : Nat) : Except Fault Reader :=
  match r.mode with
  | .value => r.beginValue limit c
  | .first => if c = 93 then r.closes c else r.beginValue limit c
  | .firstName => if c = 125 then r.closes c else r.beginName c
  | .name => r.beginName c
  | .colon => if isBlank c then .ok r else if c = 58 then .ok { r with mode := .value } else .error .malformed
  | .done => r.afterValue c
  | .text isName raw true => .ok { r with mode := .text isName (raw ++ [c]) false }
  | .text isName raw false =>
    if c = 34 then r.endText isName raw
    else .ok { r with mode := .text isName (raw ++ [c]) (c = 92) }
  | .token raw =>
    if isStop c then
      match readToken F raw with
      | some v => r.deliver v >>= afterValue c
      | none => .error .malformed
    else .ok { r with mode := .token (raw ++ [c]) }

/-- The text ends. -/
def finish (r : Reader) : Except Fault Json :=
  let complete : Except Fault Reader := match r.mode with
    | .token raw => match readToken F raw with
      | some v => r.deliver v
      | none => .error .malformed
    | .done => .ok r
    | _ => .error .malformed
  complete >>= fun r => match r.stack, r.top with
    | [], some v => .ok v
    | _, _ => .error .malformed

def readFrom (r : Reader) : Str → Except Fault Json
  | [] => r.finish F
  | c :: s => r.step F limit c >>= fun r => readFrom r s

end Reader

/-- `json.loads`, of a text in which so many arrays and objects may be open. -/
def loads (F : FloatText) (limit : Nat) (s : Str) : Except Fault Json := Reader.init.readFrom F (some limit) s

/-! ## Texts read back -/

theorem unescape_plain {c : Nat} (hc : c ≠ 92) (hlo : ¬ c < 32) (rest : Str) :
    unescape none (c :: rest) = (unescape none rest).map (c :: ·) := by
  rw [unescape.eq_def]
  split
  · next h => exact absurd (List.cons.inj h).1 hc
  · next h => exact absurd (List.cons.inj h).1 hc
  · next h =>
    obtain ⟨rfl, rfl⟩ := List.cons.inj h
    simp [hc, hlo]
  · next h => cases h

theorem unescape_escChar (c : Nat) (rest : Str) : unescape none (escChar c ++ rest) = (unescape none rest).map (c :: ·) := by
  by_cases h : c < 93
  · interval_cases c <;> rfl
  · have hc : escChar c = [c] := by
      unfold escChar
      simp only [show c ≠ 34 by omega, show c ≠ 92 by omega, show c ≠ 8 by omega, show c ≠ 9 by omega,
        show c ≠ 10 by omega, show c ≠ 12 by omega, show c ≠ 13 by omega, show ¬ c < 32 by omega, ↓reduceIte]
    rw [hc, List.singleton_append, unescape_plain (by omega) (by omega)]

theorem unescape_escText (s : Str) : unescape none (escText s) = some s := by
  induction s with
  | nil => rfl
  | cons c s ih => rw [escText, unescape_escChar, ih, Option.map_some]

/-! ## Numbers read back -/

theorem natText_eq_if (n : Nat) : natText n = if n < 10 then [48 + n] else natText (n / 10) ++ [48 + n % 10] := by
  have hchar : ∀ d, d < 10 → (Nat.digitChar d).toNat = 48 + d := by decide
  split
  · next h => simp [natText, Nat.toDigits_of_lt_base h, hchar n h]
  · next h =>
    have hdigits := Nat.toDigits_of_base_le (b := 10) (n := n) (by decide) (by omega)
    simp [natText, hdigits, hchar (n % 10) (by omega)]

theorem natText_head {n : Nat} (h : (natText n).head? = some 48) : n = 0 := by
  induction n using Nat.strong_induction_on with
  | h n ih =>
    rw [natText_eq_if] at h
    split at h
    · simpa using h
    · next hn =>
      rw [List.head?_append_of_ne_nil _ (natText_ne_nil _)] at h
      have hzero := ih (n / 10) (by omega) h
      omega

theorem isIntText_natText (n : Nat) : isIntText (natText n) = true ∧ unsigned (natText n) = natText n ∧
    (natText n).head? ≠ some 45 := by
  have hhead : (natText n).head? ≠ some 45 := by
    intro h
    cases hn : natText n with
    | nil => exact natText_ne_nil n hn
    | cons c r =>
      rw [hn] at h
      obtain rfl : c = 45 := Option.some.inj h
      exact absurd (natText_digits n 45 (by rw [hn]; exact List.mem_cons_self)).1 (by decide)
  have hunsigned : unsigned (natText n) = natText n := by
    unfold unsigned
    split
    · next s hs => exact absurd (by rw [hs]; rfl) hhead
    · rfl
  refine ⟨?_, hunsigned, hhead⟩
  have hdigits : (natText n).all isDigit = true := List.all_eq_true.2 fun c hc => by
    have hd := natText_digits n c hc
    simpa [isDigit, IsDigit] using hd
  have hzero : (natText n).head? ≠ some 48 ∨ (natText n).length = 1 := by
    by_cases h : (natText n).head? = some 48
    · rw [natText_head h]
      exact .inr rfl
    · exact .inl h
  simp only [isIntText, hunsigned, hdigits, Bool.true_and, Bool.and_eq_true, Bool.or_eq_true, Bool.not_eq_eq_eq_not, Bool.not_true,
    List.isEmpty_eq_false_iff, bne_iff_ne, beq_iff_eq]
  exact ⟨natText_ne_nil n, hzero⟩

theorem decimal_natText (n : Nat) : decimal (natText n) = n := by
  have hfold : ∀ (l : List Char) (m : Nat), (l.map Char.toNat).foldl (fun n c => n * 10 + (c - 48)) m = Nat.ofDigitChars 10 l m := by
    intro l
    induction l with
    | nil =>
      intro m
      exact Nat.ofDigitChars_nil.symm
    | cons c l ih =>
      intro m
      rw [List.map_cons, List.foldl_cons, ih, Nat.ofDigitChars_cons, Nat.mul_comm]
      rfl
  rw [decimal, natText, hfold, Nat.ofDigitChars_ten_toDigits]

theorem isIntText_intText (i : Int) : isIntText (intText i) = true ∧ unsigned (intText i) = natText i.natAbs ∧
    intOf (intText i) = i := by
  cases i with
  | ofNat n =>
    obtain ⟨hint, hunsigned, hhead⟩ := isIntText_natText n
    refine ⟨hint, hunsigned, ?_⟩
    simp [intText, intOf, hhead, hunsigned, decimal_natText]
  | negSucc n =>
    obtain ⟨hint, hunsigned, hhead⟩ := isIntText_natText (n + 1)
    have hminus : unsigned (intText (.negSucc n)) = natText (n + 1) := rfl
    refine ⟨?_, hminus, ?_⟩
    · rw [isIntText, hminus]
      rw [isIntText, hunsigned] at hint
      exact hint
    · have hneg : (intText (.negSucc n)).head? = some 45 := rfl
      rw [intOf, if_pos hneg, hminus, decimal_natText]
      rfl

/-- An `int` that could be written is read back. -/
theorem readToken_intText (F : FloatText) {i : Int} (h : (natText i.natAbs).length ≤ MAX_STR_DIGITS) :
    readToken F (intText i) = some (.int i) := by
  obtain ⟨hint, hunsigned, hof⟩ := isIntText_intText i
  have hname : ∀ s, isIntText s = false → intText i ≠ s := by
    rintro s hs rfl
    rw [hint] at hs
    cases hs
  simp only [readToken, hname (lit "null") rfl, hname (lit "true") rfl, hname (lit "false") rfl, hname (lit "NaN") rfl,
    hname (lit "Infinity") rfl, hname (lit "-Infinity") rfl, hint, hunsigned, h, hof, if_true, if_false]

theorem digit_not_stop {c : Nat} (h : IsDigit c) : isStop c = false := by
  obtain ⟨hlo, hhi⟩ := h
  simp only [isStop, isBlank, Bool.or_eq_false_iff, decide_eq_false_iff_not]
  omega

theorem intText_not_stop (i : Int) : ∀ c ∈ intText i, isStop c = false := by
  intro c hc
  cases i with
  | ofNat n => exact digit_not_stop (natText_digits n c hc)
  | negSucc n =>
    rcases List.mem_append.1 hc with hc | hc
    · obtain rfl : c = 45 := by simpa [lit] using hc
      rfl
    · exact digit_not_stop (natText_digits (n + 1) c hc)

theorem intText_ne_nil (i : Int) : intText i ≠ [] := by
  cases i with
  | ofNat n => exact natText_ne_nil n
  | negSucc n => simp [intText, lit]

/-- What Python writes for a double is a number that is no `int`, and is read as that double. -/
structure FloatText.Lawful (F : FloatText) : Prop where
  isFloatText : ∀ {q}, IsDouble q → isFloatText (F.repr q) = true
  read_repr : ∀ {q}, IsDouble q → F.read (F.repr q) = .fin q

theorem numberChar_lt {c : Nat} (h : isNumberChar c = true) : c < 128 ∧ isStop c = false := by
  simp only [isNumberChar, isDigit, Bool.or_eq_true, Bool.and_eq_true, decide_eq_true_eq] at h
  simp only [isStop, isBlank, Bool.or_eq_false_iff, decide_eq_false_iff_not]
  omega

theorem FloatText.Lawful.numberChars {F : FloatText} (hF : F.Lawful) {q : Rat} (h : IsDouble q) :
    ∀ c ∈ F.repr q, isNumberChar c = true := by
  have hfloat := hF.isFloatText h
  simp only [JsonValue.isFloatText, Bool.and_eq_true, List.all_eq_true] at hfloat
  exact hfloat.1.2

theorem readToken_repr {F : FloatText} (hF : F.Lawful) {q : Rat} (h : IsDouble q) :
    readToken F (F.repr q) = some (.float (.fin q)) ∧ F.repr q ≠ [] ∧ ∀ c ∈ F.repr q, isStop c = false := by
  have hfloat := hF.isFloatText h
  have hname : ∀ s, JsonValue.isFloatText s = false → F.repr q ≠ s := by
    rintro s hs rfl
    rw [hfloat] at hs
    cases hs
  have hint : isIntText (F.repr q) = false := by
    simp only [JsonValue.isFloatText, Bool.and_eq_true, Bool.not_eq_eq_eq_not, Bool.not_true] at hfloat
    exact hfloat.1.1.1
  refine ⟨?_, hname [] rfl, fun c hc => (numberChar_lt (hF.numberChars h c hc)).2⟩
  simp only [readToken, hname (lit "null") rfl, hname (lit "true") rfl, hname (lit "false") rfl, hname (lit "NaN") rfl,
    hname (lit "Infinity") rfl, hname (lit "-Infinity") rfl, hint, hfloat, hF.read_repr h, if_true, if_false, Bool.false_eq_true]

namespace Reader

variable {F : FloatText} {limit : Option Nat}

theorem readFrom_cons (r : Reader) (c : Nat) (s : Str) :
    r.readFrom F limit (c :: s) = r.step F limit c >>= fun r => r.readFrom F limit s := rfl

/-- A character of a text, as it is written, joins it. -/
theorem readFrom_escChar (isName : Bool) (raw : Str) (stack : List Container) (top : Option Json) (c : Nat) (s : Str) :
    readFrom F limit ⟨.text isName raw false, stack, top⟩ (escChar c ++ s) =
      readFrom F limit ⟨.text isName (raw ++ escChar c) false, stack, top⟩ s := by
  have hplain : ∀ (raw : Str) (c : Nat) (s : Str), c ≠ 34 → c ≠ 92 →
      readFrom F limit ⟨.text isName raw false, stack, top⟩ (c :: s) =
        readFrom F limit ⟨.text isName (raw ++ [c]) false, stack, top⟩ s := by
    intro raw c s hq hb
    rw [readFrom_cons]
    simp [step, hq, hb]
    rfl
  have hescaped : ∀ (raw : Str) (c : Nat) (s : Str),
      readFrom F limit ⟨.text isName raw false, stack, top⟩ (92 :: c :: s) =
        readFrom F limit ⟨.text isName (raw ++ [92, c]) false, stack, top⟩ s := by
    intro raw c s
    rw [readFrom_cons]
    change readFrom F limit ⟨.text isName (raw ++ [92]) true, stack, top⟩ (c :: s) = _
    rw [readFrom_cons]
    change readFrom F limit ⟨.text isName ((raw ++ [92]) ++ [c]) false, stack, top⟩ s = _
    rw [List.append_assoc]
    rfl
  have hhex : ∀ n, n < 16 → hexChar n ≠ 34 ∧ hexChar n ≠ 92 := by
    intro n hn
    unfold hexChar
    split <;> omega
  by_cases hspecial : c = 34 ∨ c = 92 ∨ c = 8 ∨ c = 9 ∨ c = 10 ∨ c = 12 ∨ c = 13
  · rcases hspecial with rfl | rfl | rfl | rfl | rfl | rfl | rfl <;> exact hescaped raw _ s
  · obtain ⟨h1, h2, h3, h4, h5, h6, h7⟩ : c ≠ 34 ∧ c ≠ 92 ∧ c ≠ 8 ∧ c ≠ 9 ∧ c ≠ 10 ∧ c ≠ 12 ∧ c ≠ 13 := by omega
    unfold escChar
    simp only [h1, h2, h3, h4, h5, h6, h7, ↓reduceIte]
    split
    · next hlow =>
      obtain ⟨hd1, hd2⟩ := hhex (c / 16) (by omega)
      obtain ⟨hd3, hd4⟩ := hhex (c % 16) (by omega)
      simp only [List.cons_append, List.nil_append]
      rw [hescaped, hplain _ _ _ (by decide) (by decide), hplain _ _ _ (by decide) (by decide), hplain _ _ _ hd1 hd2,
        hplain _ _ _ hd3 hd4]
      simp
    · exact hplain raw c s h1 h2

theorem readFrom_escText (isName : Bool) (stack : List Container) (top : Option Json) (s rest : Str) (raw : Str) :
    readFrom F limit ⟨.text isName raw false, stack, top⟩ (escText s ++ 34 :: rest) =
      endText isName (raw ++ escText s) ⟨.text isName (raw ++ escText s) false, stack, top⟩ >>= fun r =>
        r.readFrom F limit rest := by
  induction s generalizing raw with
  | nil => simp [escText, readFrom_cons, step]
  | cons c s ih => rw [escText, List.append_assoc, readFrom_escChar, ih, List.append_assoc]

/-! ## Values read back -/

/-- What follows ends a number or a name. -/
def Stops (s : Str) : Prop := ∀ c rest, s = c :: rest → isStop c = true

theorem deliver_mode (v : Json) (mode : Mode) (stack : List Container) (top : Option Json) :
    deliver v ⟨mode, stack, top⟩ = deliver v ⟨.done, stack, top⟩ := rfl

/-- A value is complete, and the text goes on. -/
def deliverThen (F : FloatText) (limit : Option Nat) (v : Json) (stack : List Container) (top : Option Json) (rest : Str) :
    Except Fault Json :=
  deliver v ⟨.done, stack, top⟩ >>= fun r => r.readFrom F limit rest

theorem deliver_done {v : Json} {r r' : Reader} (h : deliver v r = .ok r') : r'.mode = .done := by
  unfold deliver at h
  split at h
  · cases h
    rfl
  · cases h
    rfl
  · cases h
    rfl
  · cases h

theorem readFrom_token (stack : List Container) (top : Option Json) (raw tok rest : Str) (h : ∀ c ∈ tok, isStop c = false) :
    readFrom F limit ⟨.token raw, stack, top⟩ (tok ++ rest) = readFrom F limit ⟨.token (raw ++ tok), stack, top⟩ rest := by
  induction tok generalizing raw with
  | nil => simp
  | cons c tok ih =>
    have hc := h c List.mem_cons_self
    have hstep : step F limit ⟨.token raw, stack, top⟩ c = .ok ⟨.token (raw ++ [c]), stack, top⟩ := by simp [step, hc]
    rw [List.cons_append, readFrom_cons, hstep]
    exact (ih (raw ++ [c]) fun d hd => h d (List.mem_cons_of_mem c hd)).trans (by rw [List.append_assoc]; rfl)

theorem readFrom_endToken {raw : Str} {v : Json} (hv : readToken F raw = some v) (stack : List Container) (top : Option Json)
    {rest : Str} (hrest : Stops rest) :
    readFrom F limit ⟨.token raw, stack, top⟩ rest = deliverThen F limit v stack top rest := by
  unfold deliverThen
  cases rest with
  | nil =>
    change finish F _ = _
    simp only [finish, hv, deliver_mode v (.token raw)]
    cases hd : deliver v ⟨.done, stack, top⟩ with
    | error e => rfl
    | ok r =>
      change _ = finish F r
      simp only [finish, deliver_done hd]
  | cons c rest =>
    have hc := hrest c rest rfl
    have hstep : step F limit ⟨.token raw, stack, top⟩ c = deliver v ⟨.done, stack, top⟩ >>= afterValue c := by
      simp only [step, hc, if_true, hv, deliver_mode v (.token raw)]
    rw [readFrom_cons, hstep]
    cases hd : deliver v ⟨.done, stack, top⟩ with
    | error e => rfl
    | ok r =>
      have hr : step F limit r c = afterValue c r := by simp only [step, deliver_done hd]
      change afterValue c r >>= _ = r.readFrom F limit (c :: rest)
      rw [readFrom_cons, hr]

/-- Where a value may begin. -/
def Begins (mode : Mode) : Prop := mode = .value ∨ mode = .first

theorem step_begins {mode : Mode} (h : Begins mode) {stack : List Container} {top : Option Json} {c : Nat} (hc : c ≠ 93) :
    step F limit ⟨mode, stack, top⟩ c = beginValue limit c ⟨mode, stack, top⟩ := by
  rcases h with rfl | rfl
  · rfl
  · simp [step, hc]

/-- A number or a name is read as the value it is of. -/
theorem readFrom_word {mode : Mode} (h : Begins mode) (tok : Str) {v : Json} (hv : readToken F tok = some v) (hne : tok ≠ [])
    (hstop : ∀ c ∈ tok, isStop c = false) (stack : List Container) (top : Option Json) {rest : Str} (hrest : Stops rest) :
    readFrom F limit ⟨mode, stack, top⟩ (tok ++ rest) = deliverThen F limit v stack top rest := by
  cases tok with
  | nil => exact absurd rfl hne
  | cons c tok =>
    have hc := hstop c List.mem_cons_self
    have hparts : isBlank c = false ∧ c ≠ 93 ∧ c ≠ 34 ∧ c ≠ 91 ∧ c ≠ 123 := by
      simp only [isStop, Bool.or_eq_false_iff, decide_eq_false_iff_not] at hc
      tauto
    obtain ⟨hb, h93, h34, h91, h123⟩ := hparts
    have hstep : step F limit ⟨mode, stack, top⟩ c = .ok ⟨.token [c], stack, top⟩ := by
      rw [step_begins h h93]
      simp [beginValue, hb, h34, h91, h123, hc]
    rw [List.cons_append, readFrom_cons, hstep]
    exact (readFrom_token stack top [c] tok rest fun d hd => hstop d (List.mem_cons_of_mem c hd)).trans
      (readFrom_endToken hv stack top hrest)

theorem stops_dumpMoreElems (xs : List Json) (s : Str) : Stops (dumpMoreElems F xs ++ s) := by
  cases xs with
  | nil =>
    rintro c rest h
    obtain ⟨rfl, -⟩ := List.cons.inj h
    rfl
  | cons x xs =>
    rintro c rest h
    obtain ⟨rfl, -⟩ := List.cons.inj h
    rfl

theorem stops_dumpMoreMembers (ms : Members) (s : Str) : Stops (dumpMoreMembers F ms ++ s) := by
  cases ms with
  | nil =>
    rintro c rest h
    obtain ⟨rfl, -⟩ := List.cons.inj h
    rfl
  | cons m ms =>
    rintro c rest h
    obtain ⟨rfl, -⟩ := List.cons.inj h
    rfl

/-- A text between its quotes is read as a value. -/
theorem readFrom_writeText {mode : Mode} (h : Begins mode) (s : Str) (stack : List Container) (top : Option Json) (rest : Str) :
    readFrom F limit ⟨mode, stack, top⟩ (writeText s ++ rest) = deliverThen F limit (.str s) stack top rest := by
  have hstep : step F limit ⟨mode, stack, top⟩ 34 = .ok ⟨.text false [] false, stack, top⟩ := by
    rw [step_begins h (by decide)]
    rfl
  have htext : writeText s ++ rest = 34 :: (escText s ++ 34 :: rest) := by simp [writeText]
  rw [htext, readFrom_cons, hstep]
  refine (readFrom_escText false stack top s rest []).trans ?_
  simp only [List.nil_append, endText, unescape_escText]
  rfl

/-- A text between its quotes is read as the name of the next value. -/
theorem readFrom_name {mode : Mode} (h : mode = .name ∨ mode = .firstName) (k : Str) (ms : Members) (stack : List Container)
    (top : Option Json) (rest : Str) :
    readFrom F limit ⟨mode, .obj ms none :: stack, top⟩ (writeText k ++ 58 :: rest) =
      readFrom F limit ⟨.value, .obj ms (some k) :: stack, top⟩ rest := by
  have hstep : step F limit ⟨mode, .obj ms none :: stack, top⟩ 34 = .ok ⟨.text true [] false, .obj ms none :: stack, top⟩ := by
    rcases h with rfl | rfl <;> rfl
  have htext : writeText k ++ 58 :: rest = 34 :: (escText k ++ 34 :: (58 :: rest)) := by simp [writeText]
  rw [htext, readFrom_cons, hstep]
  refine (readFrom_escText true _ top k (58 :: rest) []).trans ?_
  simp only [List.nil_append, endText, unescape_escText]
  rfl

/-- There is room for so many more arrays and objects. -/
def Room (limit : Option Nat) (n : Nat) : Prop := ∀ l, limit = some l → n ≤ l

theorem opens_ok {c : Container} {mode mode' : Mode} {stack : List Container} {top : Option Json}
    (h : Room limit (stack.length + 1)) : opens limit c mode ⟨mode', stack, top⟩ = .ok ⟨mode, c :: stack, top⟩ := by
  unfold opens
  cases limit with
  | none => rfl
  | some l =>
    have hl := h l rfl
    exact if_neg (by simp; omega)

theorem Room.mono {m n : Nat} (h : Room limit n) (hmn : m ≤ n) : Room limit m := fun l hl => hmn.trans (h l hl)

theorem assign_fresh {k : Str} {ms : Members} (h : k ∉ ms.map Prod.fst) (v : Json) : Dict.assign k v ms = ms ++ [(k, v)] := by
  induction ms with
  | nil => rfl
  | cons m ms ih =>
    obtain ⟨a, w⟩ := m
    rw [List.map_cons, List.mem_cons, not_or] at h
    have ha : (a == k) = false := beq_false_of_ne fun hak => h.1 hak.symm
    rw [Dict.assign, ha, List.cons_append, ← ih h.2]
    rfl

mutual

theorem readFrom_dumpText (hF : F.Lawful) : ∀ {v : Json} {mode : Mode} {stack : List Container} {top : Option Json} {rest : Str},
    Begins mode → Proper v → intsFit v = true → Room limit (stack.length + nesting v) → Stops rest →
    readFrom F limit ⟨mode, stack, top⟩ (dumpText F v ++ rest) = deliverThen F limit v stack top rest
  | .null, _, stack, top, _, hm, _, _, _, hr => readFrom_word hm (lit "null") rfl (by decide) (by decide) stack top hr
  | .bool true, _, stack, top, _, hm, _, _, _, hr => readFrom_word hm (lit "true") rfl (by decide) (by decide) stack top hr
  | .bool false, _, stack, top, _, hm, _, _, _, hr => readFrom_word hm (lit "false") rfl (by decide) (by decide) stack top hr
  | .int i, _, stack, top, _, hm, _, hi, _, hr =>
    readFrom_word hm _ (readToken_intText F (by simpa [intsFit] using hi)) (intText_ne_nil i) (intText_not_stop i) stack top hr
  | .float (.inf false), _, stack, top, _, hm, _, _, _, hr =>
    readFrom_word hm (lit "Infinity") rfl (by decide) (by decide) stack top hr
  | .float (.inf true), _, stack, top, _, hm, _, _, _, hr =>
    readFrom_word hm (lit "-Infinity") rfl (by decide) (by decide) stack top hr
  | .float .nan, _, _, _, _, _, hv, _, _, _ => absurd hv (by simp [Proper])
  | .float (.fin q), _, stack, top, _, hm, hv, _, _, hr => by
    obtain ⟨htok, hne, hstop⟩ := readToken_repr hF (q := q) (by simpa [Proper] using hv)
    exact readFrom_word hm _ htok hne hstop stack top hr
  | .str s, _, stack, top, _, hm, _, _, _, _ => readFrom_writeText hm s stack top _
  | .arr xs, mode, stack, top, rest, hm, hv, hi, hroom, hr => by
    have hroom' : Room limit (stack.length + 1) := hroom.mono (by simp only [nesting]; omega)
    have hstep : step F limit ⟨mode, stack, top⟩ 91 = .ok ⟨.first, .arr [] :: stack, top⟩ := by
      rw [step_begins hm (by decide)]
      exact opens_ok hroom'
    rw [dumpText, List.cons_append, readFrom_cons, hstep]
    exact readFrom_dumpElems hF (by simpa [Proper] using hv) (by simpa [intsFit] using hi)
      (hroom.mono (by simp only [nesting]; omega)) hr
  | .obj ms, mode, stack, top, rest, hm, hv, hi, hroom, hr => by
    have hroom' : Room limit (stack.length + 1) := hroom.mono (by simp only [nesting]; omega)
    have hstep : step F limit ⟨mode, stack, top⟩ 123 = .ok ⟨.firstName, .obj [] none :: stack, top⟩ := by
      rw [step_begins hm (by decide)]
      exact opens_ok hroom'
    obtain ⟨hnames, hms⟩ : (ms.map Prod.fst).Nodup ∧ ProperMembers ms := by simpa [Proper] using hv
    rw [dumpText, List.cons_append, readFrom_cons, hstep]
    exact readFrom_dumpMembers hF hnames hms (by simpa [intsFit] using hi)
      (hroom.mono (by simp only [nesting]; omega)) hr

theorem readFrom_dumpElems (hF : F.Lawful) : ∀ {xs : List Json} {stack : List Container} {top : Option Json} {rest : Str},
    ProperList xs → intsFitList xs = true → Room limit (stack.length + 1 + nestingList xs) → Stops rest →
    readFrom F limit ⟨.first, .arr [] :: stack, top⟩ (dumpElems F xs ++ rest) = deliverThen F limit (.arr xs) stack top rest
  | [], stack, top, rest, _, _, _, _ => rfl
  | x :: xs, stack, top, rest, hv, hi, hroom, hr => by
    simp only [ProperList, intsFitList, nestingList, Bool.and_eq_true] at hv hi hroom
    rw [dumpElems, List.append_assoc, readFrom_dumpText hF (.inr rfl) hv.1 hi.1
      (hroom.mono (by simp only [List.length_cons]; omega)) (stops_dumpMoreElems xs rest)]
    exact readFrom_dumpMoreElems hF (d := [x]) hv.2 hi.2 (hroom.mono (by omega)) hr

theorem readFrom_dumpMoreElems (hF : F.Lawful) : ∀ {xs d : List Json} {stack : List Container} {top : Option Json} {rest : Str},
    ProperList xs → intsFitList xs = true → Room limit (stack.length + 1 + nestingList xs) → Stops rest →
    readFrom F limit ⟨.done, .arr d :: stack, top⟩ (dumpMoreElems F xs ++ rest) =
      deliverThen F limit (.arr (d ++ xs)) stack top rest
  | [], d, stack, top, rest, _, _, _, _ => by
    rw [List.append_nil]
    rfl
  | x :: xs, d, stack, top, rest, hv, hi, hroom, hr => by
    simp only [ProperList, intsFitList, nestingList, Bool.and_eq_true] at hv hi hroom
    have hcomma : readFrom F limit ⟨.done, .arr d :: stack, top⟩ (44 :: (dumpText F x ++ (dumpMoreElems F xs ++ rest))) =
        readFrom F limit ⟨.value, .arr d :: stack, top⟩ (dumpText F x ++ (dumpMoreElems F xs ++ rest)) := rfl
    rw [dumpMoreElems, List.cons_append, List.append_assoc, hcomma, readFrom_dumpText hF (.inl rfl) hv.1 hi.1
      (hroom.mono (by simp only [List.length_cons]; omega)) (stops_dumpMoreElems xs rest)]
    refine (readFrom_dumpMoreElems hF (d := d ++ [x]) hv.2 hi.2 (hroom.mono (by omega)) hr).trans ?_
    rw [List.append_assoc]
    rfl

theorem readFrom_dumpMembers (hF : F.Lawful) : ∀ {ms : Members} {stack : List Container} {top : Option Json} {rest : Str},
    (ms.map Prod.fst).Nodup → ProperMembers ms → intsFitMembers ms = true → Room limit (stack.length + 1 + nestingMembers ms) →
    Stops rest →
    readFrom F limit ⟨.firstName, .obj [] none :: stack, top⟩ (dumpMembers F ms ++ rest) =
      deliverThen F limit (.obj ms) stack top rest
  | [], stack, top, rest, _, _, _, _, _ => rfl
  | (k, v) :: ms, stack, top, rest, hn, hv, hi, hroom, hr => by
    simp only [ProperMembers, intsFitMembers, nestingMembers, Bool.and_eq_true] at hv hi hroom
    rw [dumpMembers, List.append_assoc, List.cons_append, List.append_assoc, readFrom_name (.inr rfl),
      readFrom_dumpText hF (.inl rfl) hv.1 hi.1 (hroom.mono (by simp only [List.length_cons]; omega))
        (stops_dumpMoreMembers ms rest)]
    exact readFrom_dumpMoreMembers hF (d := [(k, v)]) hn hv.2 hi.2 (hroom.mono (by omega)) hr

theorem readFrom_dumpMoreMembers (hF : F.Lawful) : ∀ {ms d : Members} {stack : List Container} {top : Option Json} {rest : Str},
    ((d ++ ms).map Prod.fst).Nodup → ProperMembers ms → intsFitMembers ms = true →
    Room limit (stack.length + 1 + nestingMembers ms) → Stops rest →
    readFrom F limit ⟨.done, .obj d none :: stack, top⟩ (dumpMoreMembers F ms ++ rest) =
      deliverThen F limit (.obj (d ++ ms)) stack top rest
  | [], d, stack, top, rest, _, _, _, _, _ => by
    rw [List.append_nil]
    rfl
  | (k, v) :: ms, d, stack, top, rest, hn, hv, hi, hroom, hr => by
    simp only [ProperMembers, intsFitMembers, nestingMembers, Bool.and_eq_true] at hv hi hroom
    have hfresh : k ∉ d.map Prod.fst := by
      rw [List.map_append, List.map_cons] at hn
      exact fun hk => (List.nodup_append.1 hn).2.2 k hk k List.mem_cons_self rfl
    have hassoc : d ++ (k, v) :: ms = (d ++ [(k, v)]) ++ ms := by simp
    have hcomma : ∀ s, readFrom F limit ⟨.done, .obj d none :: stack, top⟩ (44 :: s) =
        readFrom F limit ⟨.name, .obj d none :: stack, top⟩ s := fun _ => rfl
    have hassign : ∀ s, deliverThen F limit v (.obj d (some k) :: stack) top s =
        readFrom F limit ⟨.done, .obj (d ++ [(k, v)]) none :: stack, top⟩ s := fun s => by
      rw [← assign_fresh hfresh]
      rfl
    rw [dumpMoreMembers, List.cons_append, List.append_assoc, List.cons_append, List.append_assoc, hcomma,
      readFrom_name (.inl rfl), readFrom_dumpText hF (.inl rfl) hv.1 hi.1
        (hroom.mono (by simp only [List.length_cons]; omega)) (stops_dumpMoreMembers ms rest), hassign, hassoc]
    exact readFrom_dumpMoreMembers hF (hassoc ▸ hn) hv.2 hi.2 (hroom.mono (by omega)) hr

end

/-! ## Too deep -/

/-- Where the reader stands after so many characters. -/
def advance (F : FloatText) (limit : Option Nat) (r : Reader) : Str → Except Fault Reader
  | [] => .ok r
  | c :: s => r.step F limit c >>= fun r => advance F limit r s

theorem readFrom_eq (r : Reader) (s : Str) : r.readFrom F limit s = r.advance F limit s >>= finish F := by
  induction s generalizing r with
  | nil => rfl
  | cons c s ih =>
    rw [readFrom_cons, advance]
    cases r.step F limit c with
    | error e => rfl
    | ok r' => exact ih r'

/-- What is not an error leaves no more open than there was, and an error is a `ValueError`. -/
def Within (n : Nat) : Except Fault Reader → Prop
  | .ok r => r.stack.length ≤ n
  | .error e => e = .malformed

theorem within_deliver (v : Json) (r : Reader) : Within r.stack.length (deliver v r) := by
  unfold deliver
  split
  · exact Nat.zero_le _
  · next h => simp [Within, h]
  · next h => simp [Within, h]
  · rfl

theorem Within.mono {m n : Nat} {x : Except Fault Reader} (h : Within m x) (hmn : m ≤ n) : Within n x := by
  cases x with
  | ok r => exact Nat.le_trans h hmn
  | error e => exact h

theorem Within.bind {n : Nat} {x : Except Fault Reader} {f : Reader → Except Fault Reader} (h : Within n x)
    (hf : ∀ r, r.stack.length ≤ n → Within n (f r)) : Within n (x >>= f) := by
  cases x with
  | ok r => exact hf r h
  | error e => exact h

theorem within_closes (bracket : Nat) (r : Reader) : Within r.stack.length (closes bracket r) := by
  unfold closes
  split
  · next h =>
    split
    · exact (within_deliver _ _).mono (by simp [h])
    · rfl
  · next h =>
    split
    · exact (within_deliver _ _).mono (by simp [h])
    · rfl
  · rfl

theorem within_endText (isName : Bool) (raw : Str) (r : Reader) : Within r.stack.length (endText isName raw r) := by
  unfold endText
  split
  · exact within_deliver _ r
  · next h => simp [Within, h]
  · rfl

theorem within_afterValue (c : Nat) (r : Reader) : Within r.stack.length (afterValue c r) := by
  unfold afterValue
  split
  · exact Nat.le_refl _
  split
  · split
    · exact Nat.le_refl _
    · exact Nat.le_refl _
    · rfl
  · exact within_closes c r

theorem within_beginName (c : Nat) (r : Reader) : Within r.stack.length (beginName c r) := by
  unfold beginName
  split
  · exact Nat.le_refl _
  split
  · exact Nat.le_refl _
  · rfl

/-- A limit refuses what would open more, and changes nothing else. -/
def Limits (l : Nat) (x y : Except Fault Reader) : Prop :=
  (x = y ∧ Within l x) ∨ (x = .error .tooDeep ∧ ∃ r, y = .ok r ∧ l < r.stack.length)

theorem limits_opens (l : Nat) (r : Reader) (c : Container) (mode : Mode) :
    Limits l (opens (some l) c mode r) (opens none c mode r) := by
  unfold opens
  by_cases hl : l ≤ r.stack.length
  · refine .inr ⟨by simp [hl], _, rfl, ?_⟩
    exact Nat.lt_succ_of_le hl
  · refine .inl ⟨by simp [hl], ?_⟩
    simp only [Option.elim_some, hl, decide_false, Bool.false_eq_true, if_false]
    exact Nat.succ_le_of_lt (Nat.lt_of_not_le hl)

theorem limits_beginValue {l : Nat} {r : Reader} (h : r.stack.length ≤ l) (c : Nat) :
    Limits l (beginValue (some l) c r) (beginValue none c r) := by
  unfold beginValue
  split
  · exact .inl ⟨rfl, h⟩
  split
  · exact .inl ⟨rfl, h⟩
  split
  · exact limits_opens l r _ _
  split
  · exact limits_opens l r _ _
  split
  · exact .inl ⟨rfl, rfl⟩
  · exact .inl ⟨rfl, h⟩

theorem limits_step {l : Nat} {r : Reader} (h : r.stack.length ≤ l) (c : Nat) :
    Limits l (r.step F (some l) c) (r.step F none c) := by
  have hsame : ∀ {x}, Within r.stack.length x → Limits l x x := fun hx => .inl ⟨rfl, hx.mono h⟩
  unfold step
  split
  · exact limits_beginValue h c
  · split
    · exact hsame (within_closes c r)
    · exact limits_beginValue h c
  · split
    · exact hsame (within_closes c r)
    · exact hsame (within_beginName c r)
  · exact hsame (within_beginName c r)
  · split
    · exact hsame (Nat.le_refl _)
    split
    · exact hsame (Nat.le_refl _)
    · exact hsame rfl
  · exact hsame (within_afterValue c r)
  · exact hsame (Nat.le_refl _)
  · split
    · exact hsame (within_endText ..)
    · exact hsame (Nat.le_refl _)
  · split
    · split
      · exact hsame ((within_deliver _ r).bind fun r' hr' => (within_afterValue c r').mono hr')
      · exact hsame rfl
    · exact hsame (Nat.le_refl _)

theorem finish_ne_tooDeep (r : Reader) : finish F r ≠ .error .tooDeep := by
  have hcomplete : ∀ {x : Except Fault Reader}, Within r.stack.length x →
      (x >>= fun r => match r.stack, r.top with
        | [], some v => (.ok v : Except Fault Json)
        | _, _ => .error .malformed) ≠ .error .tooDeep := by
    intro x hx
    cases x with
    | error e =>
      obtain rfl : e = .malformed := hx
      rintro ⟨⟩
    | ok r' =>
      change (match r'.stack, r'.top with
        | [], some v => (.ok v : Except Fault Json)
        | _, _ => .error .malformed) ≠ .error .tooDeep
      split
      · rintro ⟨⟩
      · rintro ⟨⟩
  unfold finish
  dsimp only
  split
  · split
    · exact hcomplete (within_deliver _ r)
    · exact hcomplete rfl
  · exact hcomplete (Nat.le_refl _)
  · exact hcomplete rfl

/-- More arrays and objects than the limit are open after some beginning of the text. -/
def Overruns (F : FloatText) (limit : Nat) (r : Reader) (s : Str) : Prop :=
  ∃ p, p <+: s ∧ ∃ r', r.advance F none p = .ok r' ∧ limit < r'.stack.length

theorem advance_tooDeep_iff {l : Nat} {s : Str} {r : Reader} (h : r.stack.length ≤ l) :
    r.advance F (some l) s = .error .tooDeep ↔ Overruns F l r s := by
  induction s generalizing r with
  | nil =>
    constructor
    · rintro ⟨⟩
    · rintro ⟨p, hp, r', hr', hlt⟩
      obtain rfl := List.prefix_nil.1 hp
      cases hr'
      omega
  | cons c s ih =>
    have hnext : Overruns F l r (c :: s) ↔ ∃ r₁, r.step F none c = .ok r₁ ∧ Overruns F l r₁ s := by
      constructor
      · rintro ⟨p, hp, r', hr', hlt⟩
        cases p with
        | nil =>
          cases hr'
          omega
        | cons a p =>
          obtain ⟨rfl, hrest⟩ := List.cons_prefix_cons.1 hp
          cases hstep : r.step F none a with
          | error e =>
            rw [advance, hstep] at hr'
            cases hr'
          | ok r₁ =>
            rw [advance, hstep] at hr'
            exact ⟨r₁, rfl, p, hrest, r', hr', hlt⟩
      · rintro ⟨r₁, hstep, p, hp, r', hr', hlt⟩
        refine ⟨c :: p, List.cons_prefix_cons.2 ⟨rfl, hp⟩, r', ?_, hlt⟩
        rw [advance, hstep]
        exact hr'
    rw [hnext, advance]
    rcases limits_step (F := F) h c with ⟨heq, hwithin⟩ | ⟨hdeep, r₁, hr₁, hlt⟩
    · rw [← heq]
      cases hstep : r.step F (some l) c with
      | error e =>
        rw [hstep] at hwithin
        obtain rfl : e = .malformed := hwithin
        simp [bind, Except.bind]
      | ok r₁ =>
        rw [hstep] at hwithin
        change r₁.advance F (some l) s = _ ↔ _
        rw [ih hwithin]
        simp
    · rw [hdeep, hr₁]
      refine iff_of_true rfl ⟨r₁, rfl, [], List.nil_prefix, r₁, rfl, hlt⟩

theorem advance_limit {l : Nat} {s : Str} {r : Reader} (h : r.stack.length ≤ l) :
    r.advance F (some l) s = .error .tooDeep ∨ r.advance F (some l) s = r.advance F none s := by
  induction s generalizing r with
  | nil => exact .inr rfl
  | cons c s ih =>
    rw [advance, advance]
    rcases limits_step (F := F) h c with ⟨heq, hwithin⟩ | ⟨hdeep, -⟩
    · rw [← heq]
      cases hstep : r.step F (some l) c with
      | error e => exact .inr rfl
      | ok r₁ =>
        rw [hstep] at hwithin
        exact ih hwithin
    · rw [hdeep]
      exact .inl rfl

end Reader

/-- The value a text denotes, however deep. -/
def denoted (F : FloatText) (s : Str) : Except Fault Json := Reader.init.readFrom F none s

theorem loads_denoted (F : FloatText) (limit : Nat) (s : Str) : loads F limit s = .error .tooDeep ∨ loads F limit s = denoted F s := by
  rw [loads, denoted, Reader.readFrom_eq, Reader.readFrom_eq]
  have hzero : Reader.init.stack.length ≤ limit := Nat.zero_le limit
  rcases Reader.advance_limit (F := F) (s := s) hzero with h | h
  · rw [h]
    exact .inl rfl
  · rw [h]
    exact .inr rfl

/-- Reading ends in a `RecursionError` exactly where the text opens too many arrays and objects inside each other. -/
theorem loads_tooDeep_iff (F : FloatText) (limit : Nat) (s : Str) :
    loads F limit s = .error .tooDeep ↔ Reader.Overruns F limit .init s := by
  rw [← Reader.advance_tooDeep_iff (Nat.zero_le limit), loads, Reader.readFrom_eq]
  cases hadv : Reader.init.advance F (some limit) s with
  | error e => simp [bind, Except.bind]
  | ok r =>
    constructor
    · intro h
      exact absurd h (Reader.finish_ne_tooDeep r)
    · rintro ⟨⟩

/-- What is written is read back. -/
theorem loads_dumps {F : FloatText} (hF : F.Lawful) {limit : Nat} {v : Json} {text : Str} (hv : Proper v)
    (h : dumps F limit v = .ok text) : loads F limit text = .ok v := by
  unfold dumps at h
  split at h
  · cases h
  · next hdeep =>
    split at h
    · next hi =>
      cases h
      have hroom : Reader.Room (some limit) (0 + nesting v) := by
        rintro l ⟨⟩
        simpa using hdeep
      have hread : Reader.readFrom F (some limit) .init (dumpText F v ++ []) = .ok v :=
        Reader.readFrom_dumpText hF (.inl rfl) hv hi hroom (by rintro c rest ⟨⟩)
      rw [List.append_nil] at hread
      exact hread
    · cases h

/-! ## The characters of a text that was written -/

theorem escChar_all {p : Nat → Bool} (hp : ∀ c < 128, p c = true) {c : Nat} (hc : p c = true) : ∀ d ∈ escChar c, p d = true := by
  intro d hd
  by_cases h : c < 128
  · refine hp d ?_
    have hsmall : ∀ c < 128, ∀ d ∈ escChar c, d < 128 := by decide
    exact hsmall c h d hd
  · have hchar : escChar c = [c] := by
      unfold escChar
      simp only [show c ≠ 34 by omega, show c ≠ 92 by omega, show c ≠ 8 by omega, show c ≠ 9 by omega,
        show c ≠ 10 by omega, show c ≠ 12 by omega, show c ≠ 13 by omega, show ¬ c < 32 by omega, ↓reduceIte]
    rw [hchar, List.mem_singleton] at hd
    exact hd ▸ hc

theorem writeText_all {p : Nat → Bool} (hp : ∀ c < 128, p c = true) {s : Str} (hs : s.all p = true) :
    (writeText s).all p = true := by
  have hesc : (escText s).all p = true := by
    induction s with
    | nil => rfl
    | cons c s ih =>
      rw [List.all_cons, Bool.and_eq_true] at hs
      rw [escText, List.all_append, Bool.and_eq_true]
      exact ⟨List.all_eq_true.2 (escChar_all hp hs.1), ih hs.2⟩
  simp [writeText, hesc, hp 34 (by decide)]

theorem all_of_lt {p : Nat → Bool} (hp : ∀ c < 128, p c = true) {s : Str} (hs : ∀ c ∈ s, c < 128) : s.all p = true :=
  List.all_eq_true.2 fun c hc => hp c (hs c hc)

theorem intText_lt (i : Int) : ∀ c ∈ intText i, c < 128 := by
  have hnat : ∀ n, ∀ c ∈ natText n, c < 128 := fun n c hc => by
    have hdigit := (natText_digits n c hc).2
    omega
  intro c hc
  cases i with
  | ofNat n => exact hnat n c hc
  | negSucc n =>
    rcases List.mem_append.1 hc with hc | hc
    · obtain rfl : c = 45 := by simpa [lit] using hc
      decide
    · exact hnat _ c hc

section
variable {F : FloatText} {p : Nat → Bool}

mutual

theorem dumpText_all (hF : F.Lawful) (hp : ∀ c < 128, p c = true) : ∀ {v : Json}, Proper v → allText p v = true →
    (dumpText F v).all p = true
  | .null, _, _ => all_of_lt hp (s := lit "null") (by decide)
  | .bool true, _, _ => all_of_lt hp (s := lit "true") (by decide)
  | .bool false, _, _ => all_of_lt hp (s := lit "false") (by decide)
  | .int i, _, _ => all_of_lt hp (intText_lt i)
  | .float .nan, _, _ => all_of_lt hp (s := lit "NaN") (by decide)
  | .float (.inf false), _, _ => all_of_lt hp (s := lit "Infinity") (by decide)
  | .float (.inf true), _, _ => all_of_lt hp (s := lit "-Infinity") (by decide)
  | .float (.fin q), hv, _ =>
    all_of_lt hp fun c hc => (numberChar_lt (hF.numberChars (q := q) (by simpa [Proper] using hv) c hc)).1
  | .str s, _, ht => writeText_all hp (by simpa [allText] using ht)
  | .arr xs, hv, ht => by
    rw [dumpText, List.all_cons, hp 91 (by decide), Bool.true_and]
    exact dumpElems_all hF hp (by simpa [Proper] using hv) (by simpa [allText] using ht)
  | .obj ms, hv, ht => by
    rw [dumpText, List.all_cons, hp 123 (by decide), Bool.true_and]
    exact dumpMembers_all hF hp (by simpa [Proper] using hv : (ms.map Prod.fst).Nodup ∧ ProperMembers ms).2
      (by simpa [allText] using ht)

theorem dumpElems_all (hF : F.Lawful) (hp : ∀ c < 128, p c = true) : ∀ {xs : List Json}, ProperList xs → allTextList p xs = true →
    (dumpElems F xs).all p = true
  | [], _, _ => by simp [dumpElems, hp 93 (by decide)]
  | x :: xs, hv, ht => by
    simp only [ProperList, allTextList, Bool.and_eq_true] at hv ht
    rw [dumpElems, List.all_append, dumpText_all hF hp hv.1 ht.1, dumpMoreElems_all hF hp hv.2 ht.2]
    rfl

theorem dumpMoreElems_all (hF : F.Lawful) (hp : ∀ c < 128, p c = true) : ∀ {xs : List Json}, ProperList xs →
    allTextList p xs = true → (dumpMoreElems F xs).all p = true
  | [], _, _ => by simp [dumpMoreElems, hp 93 (by decide)]
  | x :: xs, hv, ht => by
    simp only [ProperList, allTextList, Bool.and_eq_true] at hv ht
    rw [dumpMoreElems, List.all_cons, hp 44 (by decide), List.all_append, dumpText_all hF hp hv.1 ht.1,
      dumpMoreElems_all hF hp hv.2 ht.2]
    rfl

theorem dumpMembers_all (hF : F.Lawful) (hp : ∀ c < 128, p c = true) : ∀ {ms : Members}, ProperMembers ms →
    allTextMembers p ms = true → (dumpMembers F ms).all p = true
  | [], _, _ => by simp [dumpMembers, hp 125 (by decide)]
  | (k, v) :: ms, hv, ht => by
    simp only [ProperMembers, allTextMembers, Bool.and_eq_true] at hv ht
    rw [dumpMembers, List.all_append, writeText_all hp ht.1.1, List.all_cons, hp 58 (by decide), List.all_append,
      dumpText_all hF hp hv.1 ht.1.2, dumpMoreMembers_all hF hp hv.2 ht.2]
    rfl

theorem dumpMoreMembers_all (hF : F.Lawful) (hp : ∀ c < 128, p c = true) : ∀ {ms : Members}, ProperMembers ms →
    allTextMembers p ms = true → (dumpMoreMembers F ms).all p = true
  | [], _, _ => by simp [dumpMoreMembers, hp 125 (by decide)]
  | (k, v) :: ms, hv, ht => by
    simp only [ProperMembers, allTextMembers, Bool.and_eq_true] at hv ht
    rw [dumpMoreMembers, List.all_cons, hp 44 (by decide), List.all_append, writeText_all hp ht.1.1, List.all_cons,
      hp 58 (by decide), List.all_append, dumpText_all hF hp hv.1 ht.1.2, dumpMoreMembers_all hF hp hv.2 ht.2]
    rfl

end

end

/-! ## A writer of floats -/

/-- A float by its exact decimal value. -/
def exactFloats : FloatText where
  repr q := intText (q.num * 5 ^ q.den.log2) ++ 101 :: 45 :: natText q.den.log2
  read s := .fin (intOf (s.takeWhile (· != 101)) / 10 ^ decimal ((s.dropWhile (· != 101)).drop 2))

theorem den_eq_pow {q : Rat} (h : IsDouble q) : q.den = 2 ^ q.den.log2 := by
  obtain ⟨m, e, -, -, -, rfl⟩ := h
  have hpow : ∃ j, ((m : Rat) * (2 : Rat) ^ e).den = 2 ^ j := by
    cases e with
    | ofNat n =>
      refine ⟨0, ?_⟩
      have hint : (m : Rat) * (2 : Rat) ^ (Int.ofNat n) = ((m * 2 ^ n : Int) : Rat) := by simp
      rw [hint, Rat.den_intCast, pow_zero]
    | negSucc n =>
      have hdiv : (m : Rat) * (2 : Rat) ^ (Int.negSucc n) = (m : Rat) / ((2 ^ (n + 1) : Int) : Rat) := by
        rw [zpow_negSucc, div_eq_mul_inv]
        simp
      have hdvd := Rat.den_dvd m (2 ^ (n + 1))
      rw [hdiv]
      have hnat : ((m : Rat) / ((2 ^ (n + 1) : Int) : Rat)).den ∣ 2 ^ (n + 1) := by exact_mod_cast hdvd
      obtain ⟨j, -, hj⟩ := (Nat.dvd_prime_pow Nat.prime_two).1 hnat
      exact ⟨j, hj⟩
  obtain ⟨j, hj⟩ := hpow
  rw [hj, Nat.log2_two_pow]

theorem takeWhile_append_stop {p : Nat → Bool} {s : Str} (h : ∀ c ∈ s, p c = true) {c : Nat} (hc : p c = false) (rest : Str) :
    (s ++ c :: rest).takeWhile p = s ∧ (s ++ c :: rest).dropWhile p = c :: rest := by
  induction s with
  | nil => simp [hc]
  | cons a s ih =>
    have ha := h a List.mem_cons_self
    obtain ⟨htake, hdrop⟩ := ih fun d hd => h d (List.mem_cons_of_mem a hd)
    simp [ha, htake, hdrop]

theorem intText_append (i : Int) (rest : Str) : unsigned (intText i ++ rest) = natText i.natAbs ++ rest := by
  cases i with
  | ofNat n =>
    cases hn : natText n with
    | nil => exact absurd hn (natText_ne_nil n)
    | cons c r =>
      have hc := (natText_digits n c (by rw [hn]; exact List.mem_cons_self)).1
      have hne : c ≠ 45 := by omega
      simp only [intText, Int.ofNat_eq_natCast, Int.natAbs_natCast, hn, List.cons_append]
      unfold unsigned
      split
      · next h => exact absurd (List.cons.inj h).1 hne
      · rfl
  | negSucc n => rfl

theorem natText_isDigit (n : Nat) : ∀ c ∈ natText n, isDigit c = true := fun c hc => by
  have hdigit := natText_digits n c hc
  simpa [isDigit, IsDigit] using hdigit

theorem exactFloats_lawful : exactFloats.Lawful where
  isFloatText := by
    intro q hq
    change isFloatText (intText (q.num * 5 ^ q.den.log2) ++ 101 :: 45 :: natText q.den.log2) = true
    generalize q.num * 5 ^ q.den.log2 = a
    generalize q.den.log2 = k
    have hunsigned := intText_append a (101 :: 45 :: natText k)
    obtain ⟨htake, hdrop⟩ := takeWhile_append_stop (natText_isDigit a.natAbs) (c := 101) rfl (45 :: natText k)
    have hint : isIntText (intText a ++ 101 :: 45 :: natText k) = false := by
      simp [isIntText, hunsigned, show isDigit 101 = false from rfl]
    have hchars : (intText a ++ 101 :: 45 :: natText k).all isNumberChar = true := by
      have hnat : ∀ n, (natText n).all isNumberChar = true := fun n => List.all_eq_true.2 fun c hc => by
        simp [isNumberChar, natText_isDigit n c hc]
      have ha : (intText a).all isNumberChar = true := by
        cases a with
        | ofNat n => exact hnat n
        | negSucc n =>
          have hrest := hnat (n + 1)
          change (45 :: natText (n + 1)).all isNumberChar = true
          simp only [List.all_cons, hrest, Bool.and_true]
          rfl
      simp only [List.all_append, List.all_cons, ha, hnat, Bool.true_and, Bool.and_true]
      rfl
    have hexp : isExponent (101 :: 45 :: natText k) = true := by
      have hdigits : (natText k).all isDigit = true := List.all_eq_true.2 (natText_isDigit k)
      simp [isExponent, hdigits, natText_ne_nil]
    simp only [isFloatText, hint, hunsigned, htake, hdrop, (isIntText_natText a.natAbs).1, hchars, fraction, hexp, Option.elim_some,
      Bool.not_false, Bool.and_self]
  read_repr := by
    intro q hq
    have hden := den_eq_pow hq
    have hfive : (q.num : Rat) * 5 ^ q.den.log2 / 10 ^ q.den.log2 = q := by
      have hten : (10 : Rat) ^ q.den.log2 = 2 ^ q.den.log2 * 5 ^ q.den.log2 := by rw [← mul_pow]; norm_num
      have hpos : (5 : Rat) ^ q.den.log2 ≠ 0 := pow_ne_zero _ (by norm_num)
      have htwo : ((2 : Rat) ^ q.den.log2) = (q.den : Rat) := by exact_mod_cast hden.symm
      rw [hten, mul_div_mul_right _ _ hpos, htwo, Rat.num_div_den]
    have hne : ∀ a : Int, ∀ c ∈ intText a, (c != 101) = true := by
      intro a c hc
      have hstop : c ≠ 101 := by
        rintro rfl
        cases a with
        | ofNat n => exact absurd (natText_digits n 101 hc).2 (by decide)
        | negSucc n =>
          rcases List.mem_append.1 hc with hc | hc
          · exact absurd hc (by decide)
          · exact absurd (natText_digits (n + 1) 101 hc).2 (by decide)
      simpa using hstop
    obtain ⟨htake, hdrop⟩ := takeWhile_append_stop (hne (q.num * 5 ^ q.den.log2)) (c := 101) rfl (45 :: natText q.den.log2)
    change Flt.fin _ = _
    simp only [exactFloats, htake, hdrop, (isIntText_intText _).2.2, List.drop_succ_cons, List.drop_zero, decimal_natText]
    push_cast
    rw [hfive]

end JsonValue
