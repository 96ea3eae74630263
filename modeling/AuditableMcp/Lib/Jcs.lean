import AuditableMcp.Lib.Json
import Mathlib.Tactic.IntervalCases
/-!
# A canonical JSON writer

The text RFC 8785 gives a value of null, booleans, integers, texts, arrays and objects: no blanks,
members in order, the escapes of its 3.2.2.2. It stands for a serialiser where one has to be exhibited;
a fraction, whose shortest decimal form it does not compute, it writes as a quotient.

`write_inj`: a text is of one value, read from its front. So `jcs` meets `JcsSpec`.
-/
namespace JsonValue

/-! ## The writer -/

def hexChar (n : Nat) : Nat := if n < 10 then 48 + n else 87 + n

/-- One character of a text. -/
def escChar (c : Nat) : Str :=
  if c = 34 then [92, 34]
  else if c = 92 then [92, 92]
  else if c = 8 then [92, 98]
  else if c = 9 then [92, 116]
  else if c = 10 then [92, 110]
  else if c = 12 then [92, 102]
  else if c = 13 then [92, 114]
  else if c < 32 then [92, 117, 48, 48, hexChar (c / 16), hexChar (c % 16)]
  else [c]

def escText : Str → Str
  | [] => []
  | c :: s => escChar c ++ escText s

def writeText (s : Str) : Str := 34 :: (escText s ++ [34])

mutual

def write : Json → Str
  | .null => lit "null"
  | .bool true => lit "true"
  | .bool false => lit "false"
  | .int i => intText i
  | .float (.fin q) => intText q.num ++ 47 :: natText q.den
  | .float .nan => lit "?nan"
  | .float (.inf false) => lit "?inf"
  | .float (.inf true) => lit "?-inf"
  | .str s => writeText s
  | .arr xs => 91 :: writeElems xs
  | .obj ms => 123 :: writeMembers ms

def writeElems : List Json → Str
  | [] => [93]
  | x :: xs => write x ++ writeMoreElems xs

def writeMoreElems : List Json → Str
  | [] => [93]
  | x :: xs => 44 :: (write x ++ writeMoreElems xs)

def writeMembers : Members → Str
  | [] => [125]
  | (k, v) :: ms => writeText k ++ 58 :: (write v ++ writeMoreMembers ms)

def writeMoreMembers : Members → Str
  | [] => [125]
  | (k, v) :: ms => 44 :: (writeText k ++ 58 :: (write v ++ writeMoreMembers ms))

end

/-- The canonical text of a value. -/
def jcs (v : Json) : Str := write (normForm v)

/-! ## Texts -/

/-- Reads one character back. -/
def unescChar : Str → Option (Nat × Str)
  | 92 :: 34 :: x => some (34, x)
  | 92 :: 92 :: x => some (92, x)
  | 92 :: 98 :: x => some (8, x)
  | 92 :: 116 :: x => some (9, x)
  | 92 :: 110 :: x => some (10, x)
  | 92 :: 102 :: x => some (12, x)
  | 92 :: 114 :: x => some (13, x)
  | 92 :: 117 :: 48 :: 48 :: 48 :: b :: x => some (if b < 58 then b - 48 else b - 87, x)
  | 92 :: 117 :: 48 :: 48 :: 49 :: b :: x => some (16 + if b < 58 then b - 48 else b - 87, x)
  | c :: x => some (c, x)
  | [] => none

theorem unescChar_escChar (c : Nat) (x : Str) : unescChar (escChar c ++ x) = some (c, x) := by
  by_cases h : c < 93
  · interval_cases c <;> rfl
  · have hc : escChar c = [c] := by
      unfold escChar
      simp only [show c ≠ 34 by omega, show c ≠ 92 by omega, show c ≠ 8 by omega, show c ≠ 9 by omega,
        show c ≠ 10 by omega, show c ≠ 12 by omega, show c ≠ 13 by omega, show ¬ c < 32 by omega, ↓reduceIte]
    rw [hc, List.singleton_append]
    unfold unescChar
    split <;> simp_all

theorem escChar_inj {c d : Nat} {x y : Str} (h : escChar c ++ x = escChar d ++ y) : c = d ∧ x = y := by
  have hr := unescChar_escChar c x
  rw [h, unescChar_escChar] at hr
  cases hr
  exact ⟨rfl, rfl⟩

/-- No character is written with a quote first. -/
theorem escChar_ne_quote (c : Nat) (x y : Str) : escChar c ++ x ≠ 34 :: y := by
  intro h
  have hr := unescChar_escChar c x
  rw [h] at hr
  obtain ⟨rfl, -⟩ : 34 = c ∧ y = x := by simpa [unescChar] using hr
  cases h

theorem escText_inj : ∀ {s t x y : Str}, escText s ++ 34 :: x = escText t ++ 34 :: y → s = t ∧ x = y
  | [], [], _, _, h => ⟨rfl, List.cons.inj h |>.2⟩
  | [], d :: t, x, y, h => by
    simp only [escText, List.append_assoc] at h
    exact absurd h.symm (escChar_ne_quote d _ x)
  | c :: s, [], x, y, h => by
    simp only [escText, List.append_assoc] at h
    exact absurd h (escChar_ne_quote c _ y)
  | c :: s, d :: t, x, y, h => by
    simp only [escText, List.append_assoc] at h
    obtain ⟨rfl, h'⟩ := escChar_inj h
    obtain ⟨rfl, hxy⟩ := escText_inj h'
    exact ⟨rfl, hxy⟩

theorem writeText_inj {s t x y : Str} (h : writeText s ++ x = writeText t ++ y) : s = t ∧ x = y := by
  simp only [writeText, List.cons_append, List.append_assoc, List.nil_append, List.cons.injEq, true_and] at h
  exact escText_inj h

/-! ## Numbers -/

def IsDigit (c : Nat) : Prop := 48 ≤ c ∧ c ≤ 57

/-- What follows does not continue a number. -/
def NoDigit (s : Str) : Prop := ∀ c r, s = c :: r → ¬ IsDigit c

theorem digits_inj : ∀ {xs ys s t : Str}, (∀ c ∈ xs, IsDigit c) → (∀ c ∈ ys, IsDigit c) → NoDigit s → NoDigit t →
    xs ++ s = ys ++ t → xs = ys ∧ s = t
  | [], [], _, _, _, _, _, _, h => ⟨rfl, h⟩
  | [], y :: ys, _, _, _, hy, hs, _, h => absurd (hy y List.mem_cons_self) (hs y _ h)
  | x :: xs, [], _, _, hx, _, _, ht, h => absurd (hx x List.mem_cons_self) (ht x _ h.symm)
  | x :: xs, y :: ys, s, t, hx, hy, hs, ht, h => by
    obtain ⟨rfl, h'⟩ := List.cons.inj h
    obtain ⟨rfl, hst⟩ := digits_inj (fun c hc => hx c (List.mem_cons_of_mem _ hc))
      (fun c hc => hy c (List.mem_cons_of_mem _ hc)) hs ht h'
    exact ⟨rfl, hst⟩

theorem natText_digits (n : Nat) : ∀ c ∈ natText n, IsDigit c := by
  intro c hc
  obtain ⟨d, hd, rfl⟩ := List.mem_map.1 hc
  have hdig := Nat.isDigit_of_mem_toDigits (by decide) (by decide) hd
  simpa [Char.isDigit, IsDigit, Char.le_def, UInt32.le_iff_toNat_le] using hdig

theorem char_toNat_inj {a b : Char} (h : a.toNat = b.toNat) : a = b :=
  Char.ext (UInt32.toNat_inj.1 h)

theorem natText_inj' {m n : Nat} (h : natText m = natText n) : m = n := by
  have hd : Nat.toDigits 10 m = Nat.toDigits 10 n :=
    List.map_injective_iff.2 (fun _ _ => char_toNat_inj) h
  rw [← @Nat.ofDigitChars_ten_toDigits m, hd, Nat.ofDigitChars_ten_toDigits]

theorem natText_inj {m n : Nat} {s t : Str} (hs : NoDigit s) (ht : NoDigit t)
    (h : natText m ++ s = natText n ++ t) : m = n ∧ s = t := by
  obtain ⟨hmn, hst⟩ := digits_inj (natText_digits m) (natText_digits n) hs ht h
  exact ⟨natText_inj' hmn, hst⟩

theorem natText_ne_nil (n : Nat) : natText n ≠ [] := by
  simp [natText, Nat.toDigits_ne_nil]

/-- A numeral does not begin with a sign. -/
theorem natText_ne_minus (n : Nat) {s t : Str} : natText n ++ s ≠ 45 :: t := by
  intro h
  cases hn : natText n with
  | nil => exact natText_ne_nil n hn
  | cons c r =>
    have hc := natText_digits n c (by rw [hn]; exact List.mem_cons_self)
    rw [hn] at h
    obtain rfl : c = 45 := (List.cons.inj h).1
    exact absurd hc.1 (by decide)

theorem intText_inj : ∀ {i j : Int} {s t : Str}, NoDigit s → NoDigit t →
    intText i ++ s = intText j ++ t → i = j ∧ s = t
  | .ofNat m, .ofNat n, _, _, hs, ht, h => by
    obtain ⟨rfl, hst⟩ := natText_inj hs ht h
    exact ⟨rfl, hst⟩
  | .negSucc m, .negSucc n, s, t, hs, ht, h => by
    have h' : natText (m + 1) ++ s = natText (n + 1) ++ t := (List.cons.inj h).2
    obtain ⟨hmn, hst⟩ := natText_inj hs ht h'
    obtain rfl : m = n := by omega
    exact ⟨rfl, hst⟩
  | .ofNat m, .negSucc n, _, _, _, _, h => absurd h (natText_ne_minus m)
  | .negSucc m, .ofNat n, _, _, _, _, h => absurd h.symm (natText_ne_minus n)

/-! ## Values -/

/-- The kinds of value, which begin differently, and the end of an array. -/
inductive Kind
  | null | bool | number | other | text | array | object | close
deriving DecidableEq

def kind : Json → Kind
  | .null => .null
  | .bool _ => .bool
  | .int _ => .number
  | .float (.fin _) => .number
  | .float _ => .other
  | .str _ => .text
  | .arr _ => .array
  | .obj _ => .object

def headKind (c : Nat) : Kind :=
  if c = 110 then .null else if c = 116 ∨ c = 102 then .bool else if c = 63 then .other
  else if c = 34 then .text else if c = 91 then .array else if c = 123 then .object
  else if c = 93 then .close else .number

theorem headKind_intText (i : Int) (s : Str) : (intText i ++ s).head?.map headKind = some .number := by
  cases i with
  | negSucc n => rfl
  | ofNat n =>
    simp only [intText]
    cases hn : natText n with
    | nil => exact absurd hn (natText_ne_nil n)
    | cons c r =>
      obtain ⟨hlo, hhi⟩ := natText_digits n c (by rw [hn]; exact List.mem_cons_self)
      simp only [List.cons_append, List.head?_cons, Option.map_some, Option.some.injEq, headKind]
      simp only [show c ≠ 110 by omega, show c ≠ 116 by omega, show c ≠ 102 by omega, show c ≠ 63 by omega,
        show c ≠ 34 by omega, show c ≠ 91 by omega, show c ≠ 123 by omega, show c ≠ 93 by omega, or_self, ↓reduceIte]

theorem headKind_write (v : Json) (s : Str) : (write v ++ s).head?.map headKind = some (kind v) := by
  match v with
  | .int i => exact headKind_intText i s
  | .float (.fin q) =>
    simp only [write, List.append_assoc]
    exact headKind_intText q.num _
  | .null | .bool true | .bool false | .float .nan | .float (.inf true) | .float (.inf false)
  | .str _ | .arr _ | .obj _ => simp only [write]; rfl

/-- No value begins with the end of an array. -/
theorem write_ne_close (v : Json) (s t : Str) : write v ++ s ≠ 93 :: t := by
  intro h
  have hk := headKind_write v s
  rw [h] at hk
  have hk' : kind v = .close := (Option.some.inj hk).symm
  match v with
  | .float (.fin _) | .float .nan | .float (.inf _) | .null | .bool _ | .int _ | .str _ | .arr _ | .obj _ => cases hk'

theorem kind_eq {a b : Json} {s t : Str} (h : write a ++ s = write b ++ t) : kind a = kind b := by
  have ha := headKind_write a s
  rw [h, headKind_write] at ha
  exact (Option.some.inj ha).symm

/-- What follows a value inside a document, or at its end. -/
def Stop (s : Str) : Prop := ∀ c r, s = c :: r → c = 44 ∨ c = 93 ∨ c = 125

theorem Stop.noDigit {s : Str} (h : Stop s) : NoDigit s := by
  intro c r hs hc
  unfold IsDigit at hc
  rcases h c r hs with rfl | rfl | rfl <;> omega

theorem noDigit_slash (s : Str) : NoDigit (47 :: s) := by
  rintro c r ⟨⟩ hc
  exact absurd hc.1 (by decide)

theorem Stop.ne_slash {s x : Str} (h : Stop s) : s ≠ 47 :: x := fun hs => by
  rcases h 47 x hs with h | h | h <;> cases h

theorem stop_writeMoreElems (xs : List Json) (s : Str) : Stop (writeMoreElems xs ++ s) := by
  cases xs <;> (rintro c r h; simp only [writeMoreElems, List.cons_append] at h; cases h; simp)

theorem stop_writeMoreMembers (ms : Members) (s : Str) : Stop (writeMoreMembers ms ++ s) := by
  cases ms <;> (rintro c r h; simp only [writeMoreMembers, List.cons_append] at h; cases h; simp)

/-- A number's text is of one number. -/
theorem write_number_inj {a b : Json} {s t : Str} (ha : kind a = .number) (hb : kind b = .number)
    (hs : Stop s) (ht : Stop t) (h : write a ++ s = write b ++ t) : a = b ∧ s = t := by
  match a, b with
  | .int i, .int j =>
    obtain ⟨rfl, hst⟩ := intText_inj hs.noDigit ht.noDigit h
    exact ⟨rfl, hst⟩
  | .int i, .float (.fin q) =>
    simp only [write, List.append_assoc, List.cons_append] at h
    exact absurd (intText_inj hs.noDigit (noDigit_slash _) h).2 hs.ne_slash
  | .float (.fin p), .int j =>
    simp only [write, List.append_assoc, List.cons_append] at h
    exact absurd (intText_inj (noDigit_slash _) ht.noDigit h).2.symm ht.ne_slash
  | .float (.fin p), .float (.fin q) =>
    simp only [write, List.append_assoc, List.cons_append] at h
    obtain ⟨hnum, h'⟩ := intText_inj (noDigit_slash _) (noDigit_slash _) h
    obtain ⟨hden, hst⟩ := natText_inj hs.noDigit ht.noDigit (List.cons.inj h').2
    exact ⟨by rw [Rat.ext hnum hden], hst⟩

mutual

theorem write_inj : ∀ {a b : Json} {s t : Str}, Stop s → Stop t → write a ++ s = write b ++ t → a = b ∧ s = t
  | .null, b, s, t, _, _, h => by
    have hk := kind_eq h
    cases b with
    | null => exact ⟨rfl, List.append_cancel_left h⟩
    | float f => cases f <;> cases hk
    | _ => cases hk
  | .bool p, b, s, t, _, _, h => by
    have hk := kind_eq h
    cases b with
    | bool q =>
      cases p <;> cases q
      · exact ⟨rfl, List.append_cancel_left h⟩
      · exact absurd (List.cons.inj h).1 (by decide)
      · exact absurd (List.cons.inj h).1 (by decide)
      · exact ⟨rfl, List.append_cancel_left h⟩
    | float f => cases f <;> cases hk
    | _ => cases hk
  | .int i, b, s, t, hs, ht, h => write_number_inj rfl (kind_eq h).symm hs ht h
  | .float (.fin q), b, s, t, hs, ht, h => write_number_inj rfl (kind_eq h).symm hs ht h
  | .float .nan, b, s, t, _, _, h => by
    have hk := kind_eq h
    match b with
    | .float .nan => exact ⟨rfl, List.append_cancel_left h⟩
    | .float (.inf true) | .float (.inf false) => exact absurd (List.cons.inj (List.cons.inj h).2).1 (by decide)
    | .float (.fin _) | .null | .bool _ | .int _ | .str _ | .arr _ | .obj _ => cases hk
  | .float (.inf n), b, s, t, _, _, h => by
    have hk := kind_eq h
    match n, b with
    | true, .float (.inf true) | false, .float (.inf false) => exact ⟨rfl, List.append_cancel_left h⟩
    | true, .float .nan | false, .float .nan | true, .float (.inf false) | false, .float (.inf true) =>
      exact absurd (List.cons.inj (List.cons.inj h).2).1 (by decide)
    | _, .float (.fin _) | _, .null | _, .bool _ | _, .int _ | _, .str _ | _, .arr _ | _, .obj _ => cases hk
  | .str x, b, s, t, _, _, h => by
    have hk := kind_eq h
    cases b with
    | str y =>
      obtain ⟨rfl, hst⟩ := writeText_inj h
      exact ⟨rfl, hst⟩
    | float f => cases f <;> cases hk
    | _ => cases hk
  | .arr xs, b, s, t, _, _, h => by
    have hk := kind_eq h
    cases b with
    | arr ys =>
      obtain ⟨rfl, hst⟩ := writeElems_inj (List.cons.inj h).2
      exact ⟨rfl, hst⟩
    | float f => cases f <;> cases hk
    | _ => cases hk
  | .obj ms, b, s, t, _, _, h => by
    have hk := kind_eq h
    cases b with
    | obj ns =>
      obtain ⟨rfl, hst⟩ := writeMembers_inj (List.cons.inj h).2
      exact ⟨rfl, hst⟩
    | float f => cases f <;> cases hk
    | _ => cases hk

theorem writeElems_inj : ∀ {xs ys : List Json} {s t : Str}, writeElems xs ++ s = writeElems ys ++ t → xs = ys ∧ s = t
  | [], [], s, t, h => ⟨rfl, (List.cons.inj h).2⟩
  | [], y :: ys, s, t, h => by
    simp only [writeElems, List.append_assoc] at h
    exact absurd h.symm (write_ne_close y _ s)
  | x :: xs, [], s, t, h => by
    simp only [writeElems, List.append_assoc] at h
    exact absurd h (write_ne_close x _ t)
  | x :: xs, y :: ys, s, t, h => by
    simp only [writeElems, List.append_assoc] at h
    obtain ⟨rfl, h'⟩ := write_inj (stop_writeMoreElems xs s) (stop_writeMoreElems ys t) h
    obtain ⟨rfl, hst⟩ := writeMoreElems_inj h'
    exact ⟨rfl, hst⟩

theorem writeMoreElems_inj : ∀ {xs ys : List Json} {s t : Str},
    writeMoreElems xs ++ s = writeMoreElems ys ++ t → xs = ys ∧ s = t
  | [], [], s, t, h => ⟨rfl, (List.cons.inj h).2⟩
  | [], y :: ys, s, t, h => absurd (List.cons.inj h).1 (by decide)
  | x :: xs, [], s, t, h => absurd (List.cons.inj h).1 (by decide)
  | x :: xs, y :: ys, s, t, h => by
    have h' := (List.cons.inj h).2
    simp only [List.append_assoc, List.append_eq] at h'
    obtain ⟨rfl, h''⟩ := write_inj (stop_writeMoreElems xs s) (stop_writeMoreElems ys t) h'
    obtain ⟨rfl, hst⟩ := writeMoreElems_inj h''
    exact ⟨rfl, hst⟩

theorem writeMembers_inj : ∀ {ms ns : Members} {s t : Str},
    writeMembers ms ++ s = writeMembers ns ++ t → ms = ns ∧ s = t
  | [], [], s, t, h => ⟨rfl, (List.cons.inj h).2⟩
  | [], (k, v) :: ns, s, t, h => absurd (List.cons.inj h).1 (by decide)
  | (k, v) :: ms, [], s, t, h => absurd (List.cons.inj h).1 (by decide)
  | (k, v) :: ms, (l, w) :: ns, s, t, h => by
    simp only [writeMembers, List.append_assoc, List.cons_append] at h
    obtain ⟨rfl, h₁⟩ := writeText_inj h
    obtain ⟨rfl, h₂⟩ := write_inj (stop_writeMoreMembers ms s) (stop_writeMoreMembers ns t) (List.cons.inj h₁).2
    obtain ⟨rfl, hst⟩ := writeMoreMembers_inj h₂
    exact ⟨rfl, hst⟩

theorem writeMoreMembers_inj : ∀ {ms ns : Members} {s t : Str},
    writeMoreMembers ms ++ s = writeMoreMembers ns ++ t → ms = ns ∧ s = t
  | [], [], s, t, h => ⟨rfl, (List.cons.inj h).2⟩
  | [], (k, v) :: ns, s, t, h => absurd (List.cons.inj h).1 (by decide)
  | (k, v) :: ms, [], s, t, h => absurd (List.cons.inj h).1 (by decide)
  | (k, v) :: ms, (l, w) :: ns, s, t, h => by
    simp only [writeMoreMembers, List.append_assoc, List.cons_append] at h
    obtain ⟨rfl, h₁⟩ := writeText_inj (List.cons.inj h).2
    obtain ⟨rfl, h₂⟩ := write_inj (stop_writeMoreMembers ms s) (stop_writeMoreMembers ns t) (List.cons.inj h₁).2
    obtain ⟨rfl, hst⟩ := writeMoreMembers_inj h₂
    exact ⟨rfl, hst⟩

end

/-- The writer is canonical: one text for one JSON value, and different texts for different ones. -/
theorem jcs_spec (dom : Json → Prop) : JcsSpec jcs dom where
  eq_iff a b _ _ := by
    have hstop : Stop [] := by rintro c r ⟨⟩
    constructor
    · intro h
      exact (write_inj hstop hstop (by simpa [jcs] using h)).1
    · intro h
      rw [jcs, jcs, h]

end JsonValue
