import AuditableMcp.Lib.Regex
/-!
# JSON Schema

The keywords of a schema (2020-12), and what each asserts of an instance. A keyword asserts nothing of an instance of
another type. Patterns are anchored: `^…$` is its body. A `format` is an annotation, so it asserts nothing.

A schema object is the conjunction of its keywords (`schema`), and so is an `allOf`.
-/
namespace JsonSchema

open JsonValue Regex

inductive JsonType
  | string
  | boolean
  | integer
  | object
deriving DecidableEq

inductive Schema
  /-- `true`, or `{}`. -/
  | anything
  | type (t : JsonType)
  /-- `const` and `enum`, of strings. -/
  | enum (ts : List Str)
  | pattern (r : Re)
  | minLength (n : Nat)
  | minimum (bound : Int)
  | maximum (bound : Int)
  | required (name : Str)
  /-- A member of `properties`. -/
  | property (name : Str) (s : Schema)
  /-- `additionalProperties: false`, beside these `properties`. -/
  | noOthers (names : List Str)
  | propertyNames (s : Schema)
  /-- `if` and `then`. -/
  | whenever (condition consequence : Schema)
  | dependentRequired (name : Str) (names : List Str)
  | both (a b : Schema)

namespace Schema

/-- A number without a fractional part is an integer, however it is written. -/
def isType : JsonType → Json → Bool
  | .string, .str _ => true
  | .boolean, .bool _ => true
  | .integer, .int _ => true
  | .integer, .float (.fin q) => q.den = 1
  | .object, .obj _ => true
  | _, _ => false

/-- A comparison of a number. -/
def ofNumber (p : Rat → Bool) : Json → Bool
  | .int i => p i
  | .float (.fin q) => p q
  | _ => true

def ofString (p : Str → Bool) : Json → Bool
  | .str s => p s
  | _ => true

def ofObject (p : Members → Bool) : Json → Bool
  | .obj ms => p ms
  | _ => true

def valid : Schema → Json → Bool
  | anything, _ => true
  | type t, v => isType t v
  | enum ts, v => ts.any fun t => v == .str t
  | pattern r, v => ofString r.fullmatch v
  | minLength n, v => ofString (fun s => n ≤ s.length) v
  | minimum bound, v => ofNumber (fun q => bound ≤ q) v
  | maximum bound, v => ofNumber (fun q => q ≤ bound) v
  | required name, v => ofObject (fun ms => (get ms name).isSome) v
  | property name s, v => ofObject (fun ms => (get ms name).all s.valid) v
  | noOthers names, v => ofObject (fun ms => ms.all fun m => names.contains m.1) v
  | propertyNames s, v => ofObject (fun ms => ms.all fun m => s.valid (.str m.1)) v
  | whenever condition consequence, v => !condition.valid v || consequence.valid v
  | dependentRequired name names, v =>
    ofObject (fun ms => !(get ms name).isSome || names.all fun n => (get ms n).isSome) v
  | both a b, v => a.valid v && b.valid v

theorem valid_both (a b : Schema) (v : Json) : (both a b).valid v = (a.valid v && b.valid v) := by rw [valid]

/-- A schema object: its keywords. -/
def schema : List Schema → Schema
  | [] => anything
  | [s] => s
  | s :: ss => both s (schema ss)

/-- `properties`, and no others. -/
def properties (ps : List (Str × Schema)) : Schema :=
  both (schema (ps.map fun p => property p.1 p.2)) (noOthers (ps.map Prod.fst))

/-- A `required` of several. -/
def requires (names : List Str) : Schema := schema (names.map required)

theorem valid_schema (ss : List Schema) (v : Json) : (schema ss).valid v = ss.all fun s => s.valid v := by
  induction ss with
  | nil => rfl
  | cons s ss ih =>
    cases ss with
    | nil => rw [List.all_cons, List.all_nil, Bool.and_true, schema]
    | cons t ts =>
      have hcons : schema (s :: t :: ts) = both s (schema (t :: ts)) := rfl
      rw [hcons, valid_both, ih, List.all_cons (a := s)]

end Schema

end JsonSchema
