import MarkdownPrep.Json.Reader
import MarkdownPrep.Json.Value

/-!
# Decoding JSON

A decoder turns a tree into a value of some type, given the number of levels of arrays and
objects it may still enter. It fails on a value of another shape, on a number that is not finite
and on a string with a lone surrogate.

A structure decodes from an object with its field names, other members being passed over, or from
an array with its fields in order. A field may be missing; one that is given twice is an error.
-/

namespace MarkdownPrep.Json

/-- A decoder, given the number of levels it may still enter. -/
abbrev Decoder (α : Type) := Nat → Tree → Option α

/-- The number of levels of arrays and objects a document may have. -/
def maxDepth : Nat := 127

/-- True when a text comes before another in the order of code points. -/
def textBefore : Text → Text → Bool
  | _, [] => false
  | [], _ :: _ => true
  | c :: s, d :: t => c.toNat < d.toNat || c = d && textBefore s t

/-- Members in the order of their keys with one more; it takes the place of one with its key. -/
def insertSorted (key : Text) (v : α) : List (Text × α) → List (Text × α)
  | [] => [(key, v)]
  | (k, w) :: ms =>
    if key = k then (key, v) :: ms
    else if textBefore key k then (key, v) :: (k, w) :: ms
    else (k, w) :: insertSorted key v ms

/-- Members in the order they came with one more; one with its key keeps its place and takes the
new value. -/
def insertLast (key : Text) (v : α) : List (Text × α) → List (Text × α)
  | [] => [(key, v)]
  | (k, w) :: ms => if key = k then (k, v) :: ms else (k, w) :: insertLast key v ms

namespace Decoder

mutual

/-- Decodes a value of any shape. The members of an object come in the order of their keys, and
of repeated keys the last counts. -/
def value : Tree → Nat → Option Value
  | .null, _ => some .null
  | .bool b, _ => some (.bool b)
  | .number l, _ => l.number?.map .number
  | .string gs, _ => (Glyph.text? gs).map .string
  | .array ts, depth =>
    match depth with
    | 0 => none
    | d + 1 => (values ts d).map .array
  | .object ms, depth =>
    match depth with
    | 0 => none
    | d + 1 => (members ms d).map fun ms =>
      .object (ms.foldl (fun sorted (k, v) => insertSorted k v sorted) [])

/-- Decodes the items of an array. -/
def values : List Tree → Nat → Option (List Value)
  | [], _ => some []
  | t :: ts, depth => do
    let v ← value t depth
    let vs ← values ts depth
    some (v :: vs)

/-- Decodes the members of an object, in order and with repeated keys. -/
def members : List (List Glyph × Tree) → Nat → Option (List (Text × Value))
  | [], _ => some []
  | (k, t) :: ms, depth => do
    let key ← Glyph.text? k
    let v ← value t depth
    let rest ← members ms depth
    some ((key, v) :: rest)

end

/-- Decodes a value of any shape. -/
def anyValue : Decoder Value := fun depth t => value t depth

/-- Decodes an object; its members keep the order of the first appearance of their keys. -/
def record : Decoder (List (Text × Value)) := fun depth t =>
  match depth, t with
  | d + 1, .object ms =>
    (members ms d).map fun ms => ms.foldl (fun seen (k, v) => insertLast k v seen) []
  | _, _ => none

/-- Decodes a string. -/
def text : Decoder Text := fun _ t =>
  match t with
  | .string gs => Glyph.text? gs
  | _ => none

/-- Decodes true or false. -/
def bool : Decoder Bool := fun _ t =>
  match t with
  | .bool b => some b
  | _ => none

/-- Decodes any number as a binary64 number. -/
def float : Decoder Binary64 := fun _ t =>
  match t with
  | .number l => l.number?.bind Number.toBinary64?
  | _ => none

/-- Decodes a whole number of 32 bits without sign. -/
def nat32 : Decoder Nat := fun _ t =>
  match t with
  | .number l =>
    match l.number? with
    | some (.int n) => if 0 ≤ n && n.toNat < 1 <<< 32 then some n.toNat else none
    | _ => none
  | _ => none

/-- Decodes an array. -/
def list (decoder : Decoder α) : Decoder (List α) := fun depth t =>
  match depth, t with
  | d + 1, .array ts => ts.mapM (decoder d)
  | _, _ => none

/-- Decodes null as none. -/
def optional (decoder : Decoder α) : Decoder (Option α) := fun depth t =>
  match t with
  | .null => some none
  | t => (decoder depth t).map some

/-- Decodes one of some named values: its name, or an object with its name and null. -/
def named (values : List (Text × α)) : Decoder α := fun depth t =>
  match depth, t with
  | _, .string gs => (Glyph.text? gs).bind (values.lookup ·)
  | _ + 1, .object [(k, .null)] => (Glyph.text? k).bind (values.lookup ·)
  | _, _ => none

end Decoder

/-- The fields of a structure that are given. -/
structure Fields where
  depth : Nat
  given : List (Text × Tree)

namespace Fields

/-- The known members of an object, none of them repeated. -/
def ofMembers? (names : List Text) : List (List Glyph × Tree) → Option (List (Text × Tree))
  | [] => some []
  | (k, t) :: ms => do
    let key ← Glyph.text? k
    let rest ← ofMembers? names ms
    if !names.contains key then some rest
    else if (rest.lookup key).isSome then none
    else some ((key, t) :: rest)

/-- The fields of a structure with the field names `names`. -/
def decode (names : List Text) : Decoder Fields := fun depth t =>
  match depth, t with
  | d + 1, .object ms => (ofMembers? names ms).map (⟨d, ·⟩)
  | d + 1, .array ts => if ts.length ≤ names.length then some ⟨d, names.zip ts⟩ else none
  | _, _ => none

/-- The field `name`, or `default` if it is missing. -/
def get (f : Fields) (name : String) (decoder : Decoder α) (default : α) : Option α :=
  match f.given.lookup name.toList with
  | some t => decoder f.depth t
  | none => some default

/-- The field `name`, none if it is missing or null. -/
def get? (f : Fields) (name : String) (decoder : Decoder α) : Option (Option α) :=
  f.get name (.optional decoder) none

end Fields

/-- Reads a JSON document with a decoder. -/
def read? (decoder : Decoder α) (s : Text) : Option α := (Tree.read? s).bind (decoder maxDepth)

end MarkdownPrep.Json
