import AuditableMcp.Codecs
import AuditableMcp.Lib.JsonText
import AuditableMcp.Lib.Utf8
/-!
# `salted_hash.py`: what a Disclosure opens

| here | there |
| --- | --- |
| `disclosureOf` | `disclosure_of` |
| `saltedHashOf` | `salted_hash_of` |
| `openSaltedHash` | `open_salted_hash` |

`F` is how Python writes and reads a float, `limit` how many arrays and objects may be open before its recursion ends,
`sha256` the digest. A `ValueError`, of `json` or of a codec, is `Fault.malformed`, a `RecursionError` `Fault.tooDeep`.

A Disclosure is bound to its hash, and opens to what it was made of. But `open_salted_hash` catches the `ValueError`
alone: a text that opens more than `limit` arrays raises, and opens nothing (`salted_hash`).
-/
namespace AuditableMcp

open JsonValue

section
variable (F : FloatText) (limit : Nat) (sha256 : ByteString → ByteString)

def disclosureOf (salt : Str) (context : Members) : Except Fault Str :=
  dumps F limit (.arr [.str salt, .obj context]) >>= fun text =>
    match Utf8.encode text with
    | some encoded => .ok (b64urlEncode encoded)
    | none => .error .malformed

theorem isBytes_ascii {s : Str} (h : s.all (· < 128) = true) : IsBytes s := by
  intro c hc
  have hlt := List.all_eq_true.1 h c hc
  rw [decide_eq_true_eq] at hlt
  omega

def saltedHashOf (disclosure : Str) : Except Fault Str :=
  if h : disclosure.all (· < 128) = true then .ok (b64urlEncode (sha256 ⟨disclosure, isBytes_ascii h⟩).1)
  else .error .malformed

/-- `isinstance` of a two-element array of a string and an object. -/
def contextOf : Json → Option Members
  | .arr [.str _, .obj context] => some context
  | _ => none

def openSaltedHash (disclosure saltedHash : Str) : Except Fault (Option Members) :=
  match b64urlDecode (.str disclosure) with
  | none => .ok none
  | some raw =>
    saltedHashOf sha256 disclosure >>= fun actual =>
      if actual != saltedHash then .ok none
      else
        match Utf8.decode raw with
        | none => .ok none
        | some text =>
          match loads F limit text with
          | .ok decoded => .ok (contextOf decoded)
          | .error .malformed => .ok none
          | .error .tooDeep => .error .tooDeep

/-- The Disclosure is canonical, the hash is its own, and `text` is what it encodes. -/
structure Commits (disclosure saltedHash text : Str) : Prop where
  decoded : ∃ raw, b64urlDecode (.str disclosure) = some raw ∧ Utf8.decode raw = some text
  hashed : saltedHashOf sha256 disclosure = .ok saltedHash

/-- The text denotes a salt and this context, whatever the recursion limit. -/
def Discloses (disclosure saltedHash : Str) (context : Members) : Prop :=
  ∃ text salt, Commits sha256 disclosure saltedHash text ∧ denoted F text = .ok (.arr [.str salt, .obj context])

/-- The text has more arrays and objects inside each other than may be open. -/
def TooDeep (disclosure saltedHash : Str) : Prop :=
  ∃ text, Commits sha256 disclosure saltedHash text ∧ Reader.Overruns F limit .init text

end

section
variable {F : FloatText} {limit : Nat} {sha256 : ByteString → ByteString}

theorem contextOf_eq_some {v : Json} {context : Members} (h : contextOf v = some context) :
    ∃ salt, v = .arr [.str salt, .obj context] := by
  unfold contextOf at h
  split at h
  · next salt c =>
    cases h
    exact ⟨salt, rfl⟩
  · cases h

/-- What is not canonical base64url of UTF-8, or has another hash, opens nothing and raises nothing. -/
theorem openSaltedHash_not_commits {disclosure saltedHash : Str} (h : ∀ text, ¬ Commits sha256 disclosure saltedHash text) :
    openSaltedHash F limit sha256 disclosure saltedHash = .ok none := by
  unfold openSaltedHash
  split
  · rfl
  · next raw hraw =>
    have hascii : disclosure.all (· < 128) = true := by
      obtain ⟨-, heq⟩ := b64urlDecode_sound hraw
      cases heq
      exact b64urlEncode_ascii raw
    have hhash : saltedHashOf sha256 disclosure = .ok (b64urlEncode (sha256 ⟨disclosure, isBytes_ascii hascii⟩).1) := dif_pos hascii
    rw [hhash]
    by_cases heq : b64urlEncode (sha256 ⟨disclosure, isBytes_ascii hascii⟩).1 = saltedHash
    · cases htext : Utf8.decode raw with
      | none => simp [bind, Except.bind]
      | some text => exact absurd ⟨⟨raw, hraw, htext⟩, by rw [hhash, heq]⟩ (h text)
    · simp [bind, Except.bind, heq]

theorem openSaltedHash_commits {disclosure saltedHash text : Str} (h : Commits sha256 disclosure saltedHash text) :
    openSaltedHash F limit sha256 disclosure saltedHash = match loads F limit text with
      | .ok decoded => .ok (contextOf decoded)
      | .error .malformed => .ok none
      | .error .tooDeep => .error .tooDeep := by
  obtain ⟨⟨raw, hraw, htext⟩, hhash⟩ := h
  simp [openSaltedHash, hraw, hhash, htext, bind, Except.bind]

theorem Commits.text_eq {disclosure saltedHash text text' : Str} (h : Commits sha256 disclosure saltedHash text)
    (h' : Commits sha256 disclosure saltedHash text') : text = text' := by
  obtain ⟨raw, hraw, htext⟩ := h.decoded
  obtain ⟨raw', hraw', htext'⟩ := h'.decoded
  rw [hraw] at hraw'
  cases hraw'
  rw [htext] at htext'
  exact Option.some.inj htext'

/-- A hash has one Disclosure. -/
theorem Commits.disclosure_eq (hsha : Function.Injective sha256) {saltedHash d d' text text' : Str}
    (h : Commits sha256 d saltedHash text) (h' : Commits sha256 d' saltedHash text') : d = d' := by
  have hhash := h.hashed
  have hhash' := h'.hashed
  unfold saltedHashOf at hhash hhash'
  split at hhash
  · split at hhash'
    · have hsame := (Except.ok.inj hhash).trans (Except.ok.inj hhash').symm
      have hbytes := hsha (Subtype.ext (b64urlEncode_inj (sha256 _).2 (sha256 _).2 hsame))
      exact congrArg Subtype.val hbytes
    · cases hhash'
  · cases hhash

/-- What opens was committed to. -/
theorem discloses_of_open {disclosure saltedHash : Str} {context : Members}
    (h : openSaltedHash F limit sha256 disclosure saltedHash = .ok (some context)) : Discloses F sha256 disclosure saltedHash context := by
  by_cases hcommits : ∃ text, Commits sha256 disclosure saltedHash text
  · obtain ⟨text, htext⟩ := hcommits
    rw [openSaltedHash_commits htext] at h
    split at h
    · next decoded hloads =>
      obtain ⟨salt, rfl⟩ := contextOf_eq_some (Except.ok.inj h)
      rcases loads_denoted F limit text with hdeep | heq
      · rw [hdeep] at hloads
        cases hloads
      · exact ⟨text, salt, htext, heq ▸ hloads⟩
    · cases h
    · cases h
  · rw [openSaltedHash_not_commits (not_exists.1 hcommits)] at h
    cases h

/-- What discloses no context opens nothing, and raises where its text is too deep. -/
theorem openSaltedHash_undisclosed {disclosure saltedHash : Str} (h : ¬ ∃ context, Discloses F sha256 disclosure saltedHash context) :
    openSaltedHash F limit sha256 disclosure saltedHash = .ok none ↔ ¬ TooDeep F limit sha256 disclosure saltedHash := by
  by_cases hcommits : ∃ text, Commits sha256 disclosure saltedHash text
  · obtain ⟨text, htext⟩ := hcommits
    have hdeep : TooDeep F limit sha256 disclosure saltedHash ↔ loads F limit text = .error .tooDeep := by
      rw [loads_tooDeep_iff]
      constructor
      · rintro ⟨text', htext', hover⟩
        rw [htext.text_eq htext']
        exact hover
      · exact fun hover => ⟨text, htext, hover⟩
    rw [hdeep, openSaltedHash_commits htext]
    cases hloads : loads F limit text with
    | error e =>
      cases e with
      | malformed => simp
      | tooDeep => simp
    | ok decoded =>
      have hnone : contextOf decoded = none := by
        by_contra hne
        obtain ⟨context, hcontext⟩ := Option.ne_none_iff_exists'.1 hne
        obtain ⟨salt, rfl⟩ := contextOf_eq_some hcontext
        rcases loads_denoted F limit text with herror | heq
        · rw [herror] at hloads
          cases hloads
        · exact h ⟨context, text, salt, htext, heq ▸ hloads⟩
      simp [hnone]
  · have hshallow : ¬ TooDeep F limit sha256 disclosure saltedHash := by
      rintro ⟨text, htext, -⟩
      exact hcommits ⟨text, htext⟩
    simp [openSaltedHash_not_commits (not_exists.1 hcommits), hshallow]

/-! ## The round trip -/

theorem isScalar_ascii : ∀ c < 128, Utf8.isScalar c = true := by
  intro c hc
  simp only [Utf8.isScalar, Bool.or_eq_true, decide_eq_true_eq]
  omega

/-- A salt and a context, as `json.dumps` takes them. -/
theorem disclosureOf_eq (hF : F.Lawful) {salt : Str} {context : Members} (hproper : Proper (.obj context))
    (hsalt : salt.all Utf8.isScalar = true) (htext : allText Utf8.isScalar (.obj context) = true) {text : Str}
    (h : dumps F limit (.arr [.str salt, .obj context]) = .ok text) :
    ∃ encoded, Utf8.encode text = some encoded ∧ disclosureOf F limit salt context = .ok (b64urlEncode encoded) := by
  have hall : text.all Utf8.isScalar = true := by
    unfold dumps at h
    split at h
    · cases h
    split at h
    · cases h
      refine dumpText_all hF isScalar_ascii ⟨trivial, hproper, trivial⟩ ?_
      simp only [allText, allTextList, Bool.and_true, Bool.and_eq_true]
      exact ⟨hsalt, htext⟩
    · cases h
  have hencoded : Utf8.encode text = some (text.flatMap Utf8.encodeChar) := if_pos hall
  refine ⟨_, hencoded, ?_⟩
  simp [disclosureOf, h, hencoded, bind, Except.bind]

theorem open_disclosureOf (hF : F.Lawful) {salt : Str} {context : Members} (hproper : Proper (.obj context))
    (hsalt : salt.all Utf8.isScalar = true) (htext : allText Utf8.isScalar (.obj context) = true)
    (hdeep : nesting (.obj context) < limit) :
    (∃ d h, disclosureOf F limit salt context = .ok d ∧ saltedHashOf sha256 d = .ok h ∧
      openSaltedHash F limit sha256 d h = .ok (some context)) ↔ intsFit (.obj context) = true := by
  have hroom : ¬ limit < nesting (.arr [.str salt, .obj context]) := by
    simp only [nesting, nestingList] at hdeep ⊢
    omega
  have hints : intsFit (.arr [.str salt, .obj context]) = intsFit (.obj context) := by simp [intsFit, intsFitList]
  have hdumps : dumps F limit (.arr [.str salt, .obj context]) =
      if intsFit (.obj context) then .ok (dumpText F (.arr [.str salt, .obj context])) else .error .malformed := by
    rw [dumps, if_neg hroom, hints]
  constructor
  · rintro ⟨d, h, hd, -⟩
    by_contra hfit
    rw [if_neg hfit] at hdumps
    rw [disclosureOf, hdumps] at hd
    cases hd
  · intro hfit
    rw [if_pos hfit] at hdumps
    obtain ⟨encoded, hencoded, hd⟩ := disclosureOf_eq hF hproper hsalt htext hdumps
    have hhash : saltedHashOf sha256 (b64urlEncode encoded) =
        .ok (b64urlEncode (sha256 ⟨b64urlEncode encoded, isBytes_ascii (b64urlEncode_ascii encoded)⟩).1) := dif_pos (b64urlEncode_ascii encoded)
    have hcommits : Commits sha256 (b64urlEncode encoded) _ _ :=
      ⟨⟨encoded, b64urlDecode_encode (Utf8.encode_lt hencoded), Utf8.decode_encode hencoded⟩, hhash⟩
    have hloads := loads_dumps hF (v := .arr [.str salt, .obj context]) ⟨trivial, hproper, trivial⟩ hdumps
    refine ⟨_, _, hd, hhash, ?_⟩
    rw [openSaltedHash_commits hcommits, hloads]
    rfl

/-- A context is opened by its own Disclosure exactly when its integers are short enough to be written; a hash is opened
by one Disclosure; and what discloses no context opens nothing exactly when its text is not too deep. -/
theorem salted_hash (hF : F.Lawful) (limit : Nat) (hsha : Function.Injective sha256) :
    (∀ salt context, Proper (.obj context) → salt.all Utf8.isScalar = true → allText Utf8.isScalar (.obj context) = true →
      nesting (.obj context) < limit →
      ((∃ d h, disclosureOf F limit salt context = .ok d ∧ saltedHashOf sha256 d = .ok h ∧
        openSaltedHash F limit sha256 d h = .ok (some context)) ↔ intsFit (.obj context) = true)) ∧
    (∀ h d d' c c', openSaltedHash F limit sha256 d h = .ok (some c) → openSaltedHash F limit sha256 d' h = .ok (some c') → d = d') ∧
    (∀ d h, (¬ ∃ c, Discloses F sha256 d h c) →
      (openSaltedHash F limit sha256 d h = .ok none ↔ ¬ TooDeep F limit sha256 d h)) := by
  refine ⟨fun salt context hproper hsalt htext hdeep => open_disclosureOf hF hproper hsalt htext hdeep, ?_,
    fun d h hnone => openSaltedHash_undisclosed hnone⟩
  intro h d d' c c' hopen hopen'
  obtain ⟨text, salt, hcommits, -⟩ := discloses_of_open hopen
  obtain ⟨text', salt', hcommits', -⟩ := discloses_of_open hopen'
  exact hcommits.disclosure_eq hsha hcommits'

theorem salted_hash_opens :
    (∃ d h, disclosureOf exactFloats 1000 (lit "c2FsdA") [(lit "rows", .int 3)] = .ok d ∧ saltedHashOf id d = .ok h ∧
      openSaltedHash exactFloats 1000 id d h = .ok (some [(lit "rows", .int 3)])) ∧
    (∀ h d d' c c', openSaltedHash exactFloats 1000 id d h = .ok (some c) → openSaltedHash exactFloats 1000 id d' h = .ok (some c') →
      d = d') ∧
    openSaltedHash exactFloats 1000 id (lit "!") [] = .ok none := by
  have hid : Function.Injective (id : ByteString → ByteString) := Function.injective_id
  obtain ⟨hopens, hbinds, hnothing⟩ := salted_hash exactFloats_lawful 1000 hid
  refine ⟨(hopens (lit "c2FsdA") [(lit "rows", .int 3)] ⟨by decide, trivial, trivial⟩ (by decide) (by decide) (by decide)).2
    (by decide), hbinds, (hnothing (lit "!") [] ?_).2 ?_⟩
  · rintro ⟨c, text, salt, ⟨⟨raw, hraw, -⟩, -⟩, -⟩
    exact absurd hraw (by rw [show b64urlDecode (.str (lit "!")) = none from rfl]; simp)
  · rintro ⟨text, ⟨⟨raw, hraw, -⟩, -⟩, -⟩
    exact absurd hraw (by rw [show b64urlDecode (.str (lit "!")) = none from rfl]; simp)

/-! ## What raises -/

theorem advance_brackets (F : FloatText) (n : Nat) (r : Reader) (hr : r.mode = .value ∨ r.mode = .first) :
    r.advance F none (List.replicate n 91) = .ok ⟨if n = 0 then r.mode else .first, List.replicate n (.arr []) ++ r.stack, r.top⟩ := by
  induction n generalizing r with
  | zero => rfl
  | succ n ih =>
    have hstep : r.step F none 91 = .ok ⟨.first, .arr [] :: r.stack, r.top⟩ := by
      rcases hr with hmode | hmode
      · simp [Reader.step, hmode, Reader.beginValue, isBlank, Reader.opens]
      · simp [Reader.step, hmode, Reader.beginValue, isBlank, Reader.opens]
    rw [List.replicate_succ, Reader.advance, hstep]
    change Reader.advance F none _ _ = _
    rw [ih _ (.inr rfl), List.replicate_succ']
    simp

theorem overruns_brackets (F : FloatText) (limit : Nat) : Reader.Overruns F limit .init (List.replicate (limit + 1) 91) := by
  refine ⟨_, List.prefix_rfl, _, advance_brackets F (limit + 1) .init (.inl rfl), ?_⟩
  simp [Reader.init]

theorem denoted_brackets (F : FloatText) (n : Nat) : denoted F (List.replicate (n + 1) 91) = .error .malformed := by
  rw [denoted, Reader.readFrom_eq, advance_brackets F (n + 1) .init (.inl rfl)]
  rfl

theorem natText_length {n k : Nat} (h : 10 ^ k ≤ n) : k < (natText n).length := by
  induction k generalizing n with
  | zero => exact List.length_pos_of_ne_nil (natText_ne_nil n)
  | succ k ih =>
    have hten : ¬ n < 10 := by
      have hpos : 1 ≤ 10 ^ k := Nat.one_le_pow _ _ (by omega)
      rw [pow_succ] at h
      omega
    have hrest := ih (n := n / 10) (by rw [pow_succ] at h; omega)
    rw [natText_eq_if, if_neg hten, List.length_append, List.length_singleton]
    omega

end

/-- A thousand and one arrays open in a Disclosure that hashes as it should: `open_salted_hash` raises. And a context
with an integer of 4301 digits: `disclosure_of` raises. -/
theorem brackets_raise :
    (let d := b64urlEncode (List.replicate 1001 91)
     (¬ ∃ c, Discloses exactFloats id d (b64urlEncode d) c) ∧
      openSaltedHash exactFloats 1000 id d (b64urlEncode d) = .error .tooDeep) ∧
    disclosureOf exactFloats 1000 [] [(lit "n", .int ((10 ^ MAX_STR_DIGITS : Nat) : Int))] = .error .malformed := by
  have hbytes : IsBytes (List.replicate 1001 91) := by
    intro b hb
    rw [List.eq_of_mem_replicate hb]
    decide
  have hscalar : Utf8.encode (List.replicate 1001 91) = some (List.replicate 1001 91) := Utf8.encode_ascii fun c hc => by
    rw [List.eq_of_mem_replicate hc]
    decide
  have hcommits : Commits id (b64urlEncode (List.replicate 1001 91)) (b64urlEncode (b64urlEncode (List.replicate 1001 91)))
      (List.replicate 1001 91) :=
    ⟨⟨_, b64urlDecode_encode hbytes, Utf8.decode_encode hscalar⟩, dif_pos (b64urlEncode_ascii _)⟩
  refine ⟨⟨?_, ?_⟩, ?_⟩
  · rintro ⟨c, text, salt, htext, hdenoted⟩
    rw [htext.text_eq hcommits, denoted_brackets] at hdenoted
    cases hdenoted
  · rw [openSaltedHash_commits hcommits, (loads_tooDeep_iff exactFloats 1000 _).2 (overruns_brackets exactFloats 1000)]
  · have hlong : ¬ (natText (10 ^ MAX_STR_DIGITS)).length ≤ MAX_STR_DIGITS := Nat.not_le.2 (natText_length (Nat.le_refl _))
    have hfit : intsFit (.arr [.str [], .obj [(lit "n", .int ((10 ^ MAX_STR_DIGITS : Nat) : Int))]]) = false := by
      simp only [intsFit, intsFitList, intsFitMembers, Int.natAbs_natCast, hlong, decide_false, Bool.true_and, Bool.false_and]
    have hroom : ¬ 1000 < nesting (.arr [.str [], .obj [(lit "n", .int ((10 ^ MAX_STR_DIGITS : Nat) : Int))]]) := by
      simp [nesting, nestingList, nestingMembers]
    rw [disclosureOf, dumps, if_neg hroom, hfit]
    rfl

end AuditableMcp
