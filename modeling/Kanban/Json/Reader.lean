import Kanban.Calendar.Reader
import Kanban.Json.Scan
import Kanban.Text.Integer

/-!
# Reading JSON into types

Readers for single values, lists and records.  A record is an object with named fields, or a list
of its fields in their order.  Unknown fields are skipped; a field that appears twice, a missing
field and a value of another kind are mismatches.  The text is read from the front, and the first
fault decides.
-/

namespace Kanban.Json.Reader

/-- The fault of a value that is not of the expected kind: the text may still be malformed. -/
def unexpected (cs : List Char) : Fault :=
  let faultOf {α : Type} (r : Except Fault α) : Fault :=
    match r with
    | .ok _ => .mismatched
    | .error e => e
  match cs with
  | [] => .malformed
  | c :: r =>
    if c = 'n' then faultOf (word "ull" r)
    else if c = 't' then faultOf (word "rue" r)
    else if c = 'f' then faultOf (word "alse" r)
    else if c = '"' then faultOf (stringBody [] r)
    else if c = '-' ∨ c.isDigit then faultOf (number cs)
    else if c = '[' ∨ c = '\x7b' then .mismatched
    else .malformed

/-! ### Single values -/

def text : Reader String := fun cs =>
  match skipBlank cs with
  | '"' :: r => (stringBody [] r).map fun (s, rest) => (String.ofList s, rest)
  | cs => .error (unexpected cs)

/-- Reads a number of any kind. -/
def anyNumber : Reader Number := fun cs =>
  match skipBlank cs with
  | [] => .error .malformed
  | c :: r => if c = '-' ∨ c.isDigit then number (c :: r) else .error (unexpected (c :: r))

/-- Reads a whole number of 64 bits. -/
def int64 : Reader Int := fun cs => do
  match ← anyNumber cs with
  | (.int i, rest) => if Integer.Bounds.int64.holds i then .ok (i, rest) else .error .mismatched
  | (.double _, _) => .error .mismatched

def double : Reader Double := fun cs => do
  match ← anyNumber cs with
  | (.int i, rest) => .ok (Double.ofInt i, rest)
  | (.double x, rest) => .ok (x, rest)

def bool : Reader Bool := fun cs =>
  match skipBlank cs with
  | 't' :: r => (word "rue" r).map (true, ·)
  | 'f' :: r => (word "alse" r).map (false, ·)
  | cs => .error (unexpected cs)

/-- Reads an instant, written as a timestamp. -/
def instant : Reader Instant := fun cs => do
  let (s, rest) ← text cs
  match Instant.ofLenientTimestamp? s.toList with
  | some t => .ok (t, rest)
  | none => .error .mismatched

/-- Reads nothing, written `null`. -/
def nothing : Reader Unit := fun cs =>
  match skipBlank cs with
  | 'n' :: r => (word "ull" r).map ((), ·)
  | cs => .error (unexpected cs)

/-- Reads a value that may be `null`. -/
def option (r : Reader α) : Reader (Option α) := fun cs =>
  match skipBlank cs with
  | 'n' :: rest => (word "ull" rest).map (none, ·)
  | cs => (r cs).map fun (a, rest) => (some a, rest)

/-- Reads one of some words: as a string, or as the only field of an object that is `null`. -/
def oneOf (words : List (String × α)) : Reader α := fun cs => do
  let pick : Reader α := fun cs => do
    let (s, rest) ← text cs
    match words.lookup s with
    | some a => .ok (a, rest)
    | none => .error .mismatched
  match skipBlank cs with
  | '"' :: r => pick ('"' :: r)
  | '\x7b' :: r =>
    let (a, rest) ← pick r
    match skipBlank rest with
    | ':' :: rest =>
      let (_, rest) ← nothing rest
      match skipBlank rest with
      | '\x7d' :: rest => .ok (a, rest)
      | _ => .error .malformed
    | _ => .error .malformed
  | _ => .error .malformed

/-! ### Lists -/

/-- Goes on to the next item of a list, if there is one, past the comma before it. -/
def nextItem (first : Bool) (cs : List Char) : Except Fault (Option (List Char)) :=
  match skipBlank cs with
  | [] => .error .malformed
  | ']' :: _ => .ok none
  | c :: r =>
    if first then .ok (some (c :: r))
    else if c = ',' then
      match skipBlank r with
      | [] => .error .malformed
      | ']' :: _ => .error .malformed
      | r => .ok (some r)
    else .error .malformed

/-- The closing bracket of a list. -/
def closeList (cs : List Char) : Except Fault (List Char) :=
  match skipBlank cs with
  | ']' :: r => .ok r
  | _ => .error .malformed

/-- The items of a list; `most` bounds their number. -/
def items (r : Reader α) (first : Bool) :
    (most : Nat) → List Char → Except Fault (List α × List Char)
  | 0, _ => .error .malformed
  | most + 1, cs => do
    match ← nextItem first cs with
    | none => .ok ([], cs)
    | some cs =>
      let (a, cs) ← r cs
      let (more, cs) ← items r false most cs
      .ok (a :: more, cs)

def list (r : Reader α) : Reader (List α) := fun cs => do
  match skipBlank cs with
  | '[' :: cs =>
    let (xs, rest) ← items r true (cs.length + 1) cs
    let rest ← closeList rest
    .ok (xs, rest)
  | cs => .error (unexpected cs)

/-! ### Records -/

/-- How a field may be missing. -/
inductive Presence where
  /-- The field has to be there. -/
  | required
  /-- The field may be missing from an object. -/
  | optional
  /-- The field may be missing from an object, and from the end of a list of fields. -/
  | defaulted
  deriving DecidableEq

/-- A field of a record: its name and how its value is read into the record. -/
structure Slot (α : Type) where
  name : String
  presence : Presence
  read : α → Reader α

namespace Slot

/-- A field with the given presence. -/
def of (presence : Presence) (name : String) (r : Reader β) (set : α → β → α) :
    Slot α where
  name := name
  presence := presence
  read a cs := (r cs).map fun (b, rest) => (set a b, rest)

def required (name : String) (r : Reader β) (set : α → β → α) : Slot α :=
  of .required name r set

/-- A field that may be missing or `null`. -/
def optional (name : String) (r : Reader β) (set : α → Option β → α) : Slot α :=
  of .optional name (option r) set

def defaulted (name : String) (r : Reader β) (set : α → β → α) : Slot α :=
  of .defaulted name r set

end Slot

/-- Goes on to the name of the next field of an object, if there is one. -/
def nextField (first : Bool) (cs : List Char) : Except Fault (Option (List Char)) :=
  match skipBlank cs with
  | [] => .error .malformed
  | '\x7d' :: _ => .ok none
  | c :: r =>
    let next :=
      if first then some (c :: r)
      else if c = ',' then some (skipBlank r)
      else none
    match next with
    | some ('"' :: r) => .ok (some r)
    | _ => .error .malformed

/-- The colon after the name of a field. -/
def colon (cs : List Char) : Except Fault (List Char) :=
  match skipBlank cs with
  | ':' :: r => .ok r
  | _ => .error .malformed

/-- The fields of an object; `seen` holds the names that appeared before. -/
def fields (slots : List (Slot α)) (seen : List String) (a : α) (first : Bool) :
    (most : Nat) → List Char → Except Fault (α × List String × List Char)
  | 0, _ => .error .malformed
  | most + 1, cs => do
    match ← nextField first cs with
    | none => .ok (a, seen, cs)
    | some cs =>
      let (name, cs) ← stringBody [] cs
      let name := String.ofList name
      match slots.find? (·.name == name) with
      | none =>
        let cs ← skipValue (← colon cs)
        fields slots seen a false most cs
      | some slot =>
        if seen.contains name then .error .mismatched
        else
          let (a, cs) ← slot.read a (← colon cs)
          fields slots (name :: seen) a false most cs

/-- The fields of a record that is written as a list. -/
def positional (a : α) (first : Bool) :
    List (Slot α) → List Char → Except Fault (α × List Char)
  | [], cs => .ok (a, cs)
  | slot :: slots, cs => do
    match ← nextItem first cs with
    | none =>
      if (slot :: slots).all (·.presence = .defaulted) then .ok (a, cs) else .error .mismatched
    | some cs =>
      let (a, cs) ← slot.read a cs
      positional a false slots cs

/-- Reads a record, beginning with the one whose fields have their default values. -/
def record (a : α) (slots : List (Slot α)) : Reader α := fun cs => do
  match skipBlank cs with
  | '\x7b' :: cs =>
    let (a, seen, rest) ← fields slots [] a true (cs.length + 1) cs
    if slots.any fun slot => slot.presence = .required && !seen.contains slot.name then
      .error .mismatched
    else
      match skipBlank rest with
      | '\x7d' :: rest => .ok (a, rest)
      | _ => .error .malformed
  | '[' :: cs =>
    let (a, rest) ← positional a true slots cs
    let rest ← closeList rest
    .ok (a, rest)
  | cs => .error (unexpected cs)

/-- Reads a text that holds one value and nothing else. -/
def document (r : Reader α) (cs : List Char) : Except Fault α := do
  let (a, rest) ← r cs
  if (skipBlank rest).isEmpty then .ok a else .error .malformed

end Kanban.Json.Reader
