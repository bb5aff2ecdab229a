import Kanban.Calendar.Reader
import Kanban.Double.Decimal
import Kanban.Filter.Fault
import Kanban.Text.Integer

/-!
# Reading filters

```text
disjunction := conjunction ("||" conjunction)*
conjunction := primary ("&&" primary)*
primary     := "(" disjunction ")" | condition
condition   := field comparator value
```

White space may stand between all parts.  A value is quoted, or it is the text up to the first of
the marks that end it, without the white space around it.  A group of one part is that part.  The
recursive functions take a number that bounds their depth; `Filter.parse` passes one that the text
cannot exceed.
-/

namespace Kanban.Filter

/-- What a filter is read with: the length of the whole text in bytes, the zone of local times and
the value of `now`. -/
structure Context where
  length : Nat
  zone : Zone
  now : Instant

/-- The position of the rest of a text. -/
def Context.position (ctx : Context) (rest : List Char) : Nat :=
  ctx.length - Text.byteLength rest

/-- What follows a mark, after white space. -/
def eat? (mark : String) (cs : List Char) : Option (List Char) :=
  Text.after? mark.toList (Text.trimStart cs)

/-! ### Values -/

/-- The marks that end a single value without quotes, and those that end one of a list. -/
def valueEnds : List String := ["&&", "||", ")"]
def itemEnds : List String := [",", "&&", "||", ")"]

/-- The text up to the first mark, and the rest, which begins with the mark. -/
def untilMark (marks : List String) : List Char → List Char × List Char
  | [] => ([], [])
  | c :: cs =>
    if marks.any fun m => (Text.after? m.toList (c :: cs)).isSome then ([], c :: cs)
    else
      let (front, rest) := untilMark marks cs
      (c :: front, rest)

/-- The text up to a quote and what follows the quote. -/
def untilQuote? (quote : Char) : List Char → Option (List Char × List Char)
  | [] => none
  | c :: cs =>
    if c = quote then some ([], cs)
    else (untilQuote? quote cs).map fun (front, rest) => (c :: front, rest)

/-- Reads a quoted value, or the text up to one of the marks. -/
def token (ctx : Context) (marks : List String) (cs : List Char) :
    Except Fault (List Char × List Char) :=
  match Text.trimStart cs with
  | [] => .error (.missingValue (ctx.position []))
  | c :: body =>
    if c = '"' ∨ c = '\'' then
      match untilQuote? c body with
      | some reading => .ok reading
      | none => .error .unterminatedQuote
    else
      let (front, rest) := untilMark marks (c :: body)
      let value := Text.trimEnd front
      if value.isEmpty then .error (.missingValue (ctx.position (c :: body)))
      else .ok (value, rest)

/-- The instant that a date names. -/
def date? (ctx : Context) (raw : List Char) : Option Instant :=
  if Text.sameWord raw "now".toList then some ctx.now
  else
    Instant.ofTimestamp? raw <|>
      (LocalTime.ofText? raw).bind (·.instantIn? ctx.zone)

def bool? (raw : List Char) : Option Bool :=
  let word := String.ofList (Text.lower raw)
  if word = "true" ∨ word = "1" then some true
  else if word = "false" ∨ word = "0" then some false
  else none

/-- The value of a text in a field of the given kind. -/
def scalar? (ctx : Context) (kind : Field.Kind) (raw : List Char) : Option Scalar :=
  match kind with
  | .int => (Integer.int64? raw).map .int
  | .double => (Double.ofText? raw).map .double
  | .bool => (bool? raw).map .bool
  | .text => some (.text (String.ofList raw))
  | .date => (date? ctx raw).map .date

/-- Reads one value of a field. -/
def value (ctx : Context) (marks : List String) (f : Field) (cs : List Char) :
    Except Fault (Scalar × List Char) := do
  let (raw, rest) ← token ctx marks cs
  match scalar? ctx f.kind raw with
  | some v => .ok (v, rest)
  | none => .error (.invalidValue (String.ofList raw) f)

/-- Reads values with commas between them, at most `most` of them. -/
def values (ctx : Context) (f : Field) :
    (most : Nat) → List Char → Except Fault (List Scalar × List Char)
  | 0, _ => .error .tooDeep
  | most + 1, cs => do
    let (v, rest) ← value ctx itemEnds f cs
    match eat? "," rest with
    | none => .ok ([v], rest)
    | some rest =>
      let (vs, rest) ← values ctx f most rest
      .ok (v :: vs, rest)

/-! ### Conditions -/

/-- Letters, digits and the underscore form field names. -/
def isNameChar (c : Char) : Bool := c.isAlphanum || c == '_'

/-- The comparators that are symbols; a longer one comes before its beginning. -/
def symbols : List Comparator :=
  [.notEqual, .greaterEqual, .lessEqual, .equal, .greater, .less]

/-- The symbol at the beginning of a text, and the rest. -/
def symbol? : List Comparator → List Char → Option (Comparator × List Char)
  | [], _ => none
  | c :: more, cs =>
    match Text.after? c.text.toList cs with
    | some rest => some (c, rest)
    | none => symbol? more cs

/-- Reads a comparator: a symbol, or a word that ends at white space. -/
def comparator (cs : List Char) : Except Fault (Comparator × List Char) :=
  let cs := Text.trimStart cs
  match symbol? symbols cs with
  | some reading => .ok reading
  | none =>
    let word := cs.takeWhile (!Text.isBlank ·)
    let rest := cs.dropWhile (!Text.isBlank ·)
    if Text.sameWord word "like".toList then .ok (.like, rest)
    else if Text.sameWord word "in".toList then .ok (.among, rest)
    else .error (.invalidComparator (String.ofList word))

/-- The comparators that a field supports. -/
def supports (f : Field) (c : Comparator) : Bool :=
  if f.isRelation then c = .equal || c = .notEqual || c = .among
  else
    match f.kind with
    | .bool => c = .equal || c = .notEqual
    | .text => c = .equal || c = .notEqual || c = .like || c = .among
    | .int | .double | .date => c ≠ .like

/-- Reads what a field is compared with. -/
def operand (ctx : Context) (f : Field) (c : Comparator) (cs : List Char) :
    Except Fault (Operand × List Char) :=
  if c = .among then do
    let (vs, rest) ← values ctx f (cs.length + 1) cs
    .ok (.several vs, rest)
  else do
    let (v, rest) ← value ctx valueEnds f cs
    .ok (.single v, rest)

/-- Reads a condition. -/
def condition (ctx : Context) (cs : List Char) : Except Fault (Expr × List Char) := do
  let cs := Text.trimStart cs
  let name := cs.takeWhile isNameChar
  if name.isEmpty then .error (.expectedField (ctx.position cs))
  else
    match Field.ofName? name with
    | none => .error (.unknownField (String.ofList name))
    | some f =>
      let (c, rest) ← comparator (cs.dropWhile isNameChar)
      if supports f c then
        let (o, rest) ← operand ctx f c rest
        .ok (.condition ⟨f, c, o⟩, rest)
      else .error (.unsupportedComparator c f)

/-! ### Expressions -/

/-- A group of parts; one part alone stands for itself. -/
def group (join : List Expr → Expr) (first : Expr) : List Expr → Expr
  | [] => first
  | more => join (first :: more)

mutual

/-- Reads conjunctions between marks for "or". -/
def disjunction (ctx : Context) : (depth : Nat) → List Char → Except Fault (Expr × List Char)
  | 0, _ => .error .tooDeep
  | depth + 1, cs => do
    let (first, rest) ← conjunction ctx depth cs
    let (more, rest) ← disjuncts ctx depth rest
    .ok (group .any first more, rest)

/-- The further parts of a disjunction. -/
def disjuncts (ctx : Context) :
    (depth : Nat) → List Char → Except Fault (List Expr × List Char)
  | 0, _ => .error .tooDeep
  | depth + 1, cs =>
    match eat? "||" cs with
    | none => .ok ([], cs)
    | some rest => do
      let (e, rest) ← conjunction ctx depth rest
      let (es, rest) ← disjuncts ctx depth rest
      .ok (e :: es, rest)

/-- Reads primaries between marks for "and". -/
def conjunction (ctx : Context) : (depth : Nat) → List Char → Except Fault (Expr × List Char)
  | 0, _ => .error .tooDeep
  | depth + 1, cs => do
    let (first, rest) ← primary ctx depth cs
    let (more, rest) ← conjuncts ctx depth rest
    .ok (group .all first more, rest)

/-- The further parts of a conjunction. -/
def conjuncts (ctx : Context) :
    (depth : Nat) → List Char → Except Fault (List Expr × List Char)
  | 0, _ => .error .tooDeep
  | depth + 1, cs =>
    match eat? "&&" cs with
    | none => .ok ([], cs)
    | some rest => do
      let (e, rest) ← primary ctx depth rest
      let (es, rest) ← conjuncts ctx depth rest
      .ok (e :: es, rest)

/-- Reads a condition, or a disjunction in parentheses. -/
def primary (ctx : Context) : (depth : Nat) → List Char → Except Fault (Expr × List Char)
  | 0, _ => .error .tooDeep
  | depth + 1, cs =>
    match eat? "(" cs with
    | none => condition ctx cs
    | some rest => do
      let (e, rest) ← disjunction ctx depth rest
      match eat? ")" rest with
      | none => .error .missingParenthesis
      | some rest => .ok (e, rest)

end

/-- Each opening parenthesis takes three steps and each mark between parts one, so no text of `n`
characters goes deeper than this. -/
def depthFor (n : Nat) : Nat := 3 * n + 4

/-- Reads a whole text in a known zone. -/
def parseIn (zone : Zone) (now : Instant) (cs : List Char) : Except Fault Expr := do
  let ctx : Context := ⟨Text.byteLength cs, zone, now⟩
  let (e, rest) ← disjunction ctx (depthFor cs.length) cs
  let rest := Text.trimStart rest
  if rest.isEmpty then .ok e
  else .error (.unexpected (String.ofList rest) (ctx.position rest))

/-- The zone of a name, white space around it aside, where `zones` finds the zones by their names; a
blank name means universal time. -/
def zone (zones : String → Option Zone) (name : String) : Except Fault Zone :=
  let name := Text.trimmed name
  if name.isEmpty then .ok .utc
  else
    match zones name with
    | some z => .ok z
    | none => .error (.unknownZone name)

/-- Reads a filter; a blank text is no filter, whatever the zone. -/
def parse (zones : String → Option Zone) (now : Instant) (filter zoneName : String) :
    Except Fault (Option Expr) :=
  if Text.isAllBlank filter.toList then .ok none
  else do
    let z ← zone zones zoneName
    let e ← parseIn z now filter.toList
    .ok (some e)

end Kanban.Filter
