import AuditableMcp.Lib.Json
/-!
# Regular expressions over code points

Matching is by derivatives and is always of the whole text: a pattern written `^…$` is its body here.
-/
namespace Regex

open JsonValue (Str lit)

inductive Re
  | void
  | eps
  | cls (p : Nat → Bool)
  | cat (a b : Re)
  | alt (a b : Re)
  | star (a : Re)

namespace Re

def nullable : Re → Bool
  | void => false
  | eps => true
  | cls _ => false
  | cat a b => a.nullable && b.nullable
  | alt a b => a.nullable || b.nullable
  | star _ => true

/-- Concatenation and alternation that drop dead and empty parts, so that derivatives stay small. -/
def mkCat : Re → Re → Re
  | void, _ => void
  | eps, b => b
  | a, b => cat a b

def mkAlt : Re → Re → Re
  | void, b => b
  | a, void => a
  | a, b => alt a b

/-- What is left to match after `c`. -/
def deriv (c : Nat) : Re → Re
  | void => void
  | eps => void
  | cls p => if p c then eps else void
  | cat a b =>
    if a.nullable then mkAlt (mkCat (deriv c a) b) (deriv c b) else mkCat (deriv c a) b
  | alt a b => mkAlt (deriv c a) (deriv c b)
  | star a => mkCat (deriv c a) (star a)

def fullmatch (r : Re) (s : Str) : Bool := (s.foldl (fun r c => r.deriv c) r).nullable

/-! ## The constructs patterns are written in -/

def chr (c : Char) : Re := cls (· == c.toNat)
def range (a b : Char) : Re := cls fun n => a.toNat ≤ n && n ≤ b.toNat
def oneOf (s : String) : Re := cls fun n => (lit s).contains n
def text (s : String) : Re := (lit s).foldr (fun n r => cat (cls (· == n)) r) eps
def opt (a : Re) : Re := alt a eps
def plus (a : Re) : Re := cat a (star a)

def rep : Nat → Re → Re
  | 0, _ => eps
  | n + 1, a => cat a (rep n a)

def seq : List Re → Re
  | [] => eps
  | [a] => a
  | a :: as => cat a (seq as)

def any : List Re → Re
  | [] => void
  | [a] => a
  | a :: as => alt a (any as)

/-! ## Patterns over some code points only -/

/-- The pattern with its classes cut down to the code points of `p`. -/
def restrict (p : Nat → Bool) : Re → Re
  | void => void
  | eps => eps
  | cls f => cls fun n => f n && p n
  | cat a b => cat (restrict p a) (restrict p b)
  | alt a b => alt (restrict p a) (restrict p b)
  | star a => star (restrict p a)

variable {p : Nat → Bool}

@[simp] theorem nullable_restrict (r : Re) : (r.restrict p).nullable = r.nullable := by
  induction r with
  | cat a b iha ihb => simp only [restrict, nullable, iha, ihb]
  | alt a b iha ihb => simp only [restrict, nullable, iha, ihb]
  | _ => rfl

theorem restrict_mkCat (a b : Re) : (mkCat a b).restrict p = mkCat (a.restrict p) (b.restrict p) := by
  cases a <;> rfl

theorem restrict_mkAlt (a b : Re) : (mkAlt a b).restrict p = mkAlt (a.restrict p) (b.restrict p) := by
  cases a <;> cases b <;> rfl

theorem deriv_restrict {c : Nat} (hc : p c = true) (r : Re) : (r.restrict p).deriv c = (r.deriv c).restrict p := by
  induction r with
  | void => rfl
  | eps => rfl
  | cls f =>
    simp only [restrict, deriv, hc, Bool.and_true]
    split <;> rfl
  | cat a b iha ihb =>
    simp only [restrict, deriv, nullable_restrict, iha, ihb]
    split <;> simp only [restrict_mkAlt, restrict_mkCat]
  | alt a b iha ihb => simp only [restrict, deriv, iha, ihb, restrict_mkAlt]
  | star a ih => simp only [restrict, deriv, ih, restrict_mkCat]

theorem deriv_restrict_void {c : Nat} (hc : p c = false) (r : Re) : (r.restrict p).deriv c = void := by
  induction r with
  | void => rfl
  | eps => rfl
  | cls f => simp [restrict, deriv, hc]
  | cat a b iha ihb =>
    simp only [restrict, deriv, iha, ihb]
    split <;> rfl
  | alt a b iha ihb =>
    simp only [restrict, deriv, iha, ihb]
    rfl
  | star a ih =>
    simp only [restrict, deriv, ih]
    rfl

theorem fullmatch_void (s : Str) : void.fullmatch s = false := by
  induction s with
  | nil => rfl
  | cons c s ih => exact ih

/-- A cut down pattern matches what the pattern does, of those code points. -/
theorem fullmatch_restrict (r : Re) (s : Str) : (r.restrict p).fullmatch s = (r.fullmatch s && s.all p) := by
  induction s generalizing r with
  | nil =>
    change (r.restrict p).nullable = (r.nullable && true)
    rw [nullable_restrict, Bool.and_true]
  | cons c s ih =>
    change ((r.restrict p).deriv c).fullmatch s = ((r.deriv c).fullmatch s && (p c && s.all p))
    cases hc : p c with
    | true => rw [deriv_restrict hc, ih, Bool.true_and]
    | false => rw [deriv_restrict_void hc, fullmatch_void, Bool.false_and, Bool.and_false]

theorem restrict_cls {f : Nat → Bool} (h : ∀ n, f n = true → p n = true) : (cls f).restrict p = cls f := by
  refine congrArg cls (funext fun n => ?_)
  cases hn : f n with
  | false => rfl
  | true => rw [h n hn, Bool.and_true]

theorem restrict_chr {c : Char} (h : p c.toNat = true) : (chr c).restrict p = chr c :=
  restrict_cls fun n hn => by rwa [eq_of_beq hn]

theorem restrict_range {a b : Char} (h : ∀ n, a.toNat ≤ n → n ≤ b.toNat → p n = true) :
    (range a b).restrict p = range a b :=
  restrict_cls fun n hn => by
    obtain ⟨ha, hb⟩ := Bool.and_eq_true_iff.1 hn
    exact h n (of_decide_eq_true ha) (of_decide_eq_true hb)

theorem restrict_oneOf {s : String} (h : ∀ n ∈ lit s, p n = true) : (oneOf s).restrict p = oneOf s :=
  restrict_cls fun n hn => h n (List.contains_iff_mem.1 hn)

theorem restrict_text {s : String} (h : ∀ n ∈ lit s, p n = true) : (text s).restrict p = text s := by
  unfold text
  generalize lit s = cs at h
  induction cs with
  | nil => rfl
  | cons c cs ih =>
    simp only [List.foldr_cons, restrict, ih fun n hn => h n (List.mem_cons_of_mem _ hn)]
    congr 1
    exact restrict_cls fun n hn => eq_of_beq hn ▸ h c List.mem_cons_self

@[simp] theorem restrict_opt (a : Re) : (opt a).restrict p = opt (a.restrict p) := rfl

@[simp] theorem restrict_plus (a : Re) : (plus a).restrict p = plus (a.restrict p) := rfl

@[simp] theorem restrict_rep (n : Nat) (a : Re) : (rep n a).restrict p = rep n (a.restrict p) := by
  induction n with
  | zero => rfl
  | succ n ih => simp only [rep, restrict, ih]

@[simp] theorem restrict_seq (as : List Re) : (seq as).restrict p = seq (as.map (·.restrict p)) := by
  induction as with
  | nil => rfl
  | cons a as ih =>
    cases as with
    | nil => rfl
    | cons b bs => simpa only [seq, restrict, List.map_cons, Re.cat.injEq, true_and] using ih

@[simp] theorem restrict_any (as : List Re) : (any as).restrict p = any (as.map (·.restrict p)) := by
  induction as with
  | nil => rfl
  | cons a as ih =>
    cases as with
    | nil => rfl
    | cons b bs => simpa only [any, restrict, List.map_cons, Re.alt.injEq, true_and] using ih

end Re

end Regex
