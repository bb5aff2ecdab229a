import Kanban.Text.Basic

/-!
# Patterns

In a pattern `%` stands for any text and `_` for any one character; every other character stands for
itself, and a letter of ASCII for both of its cases.  Patterns and texts end at their first `NUL`,
and the noncharacters U+FFFE and U+FFFF are read as the replacement character (`Pattern.legible`).

All tails of a text are tested at once, from the end of the pattern to its beginning
(`Pattern.tails`), which takes time in proportion to the product of the two lengths.  What the
tails of a text are does not depend on what stands before them (`Pattern.tails_cons`), so matching
follows the pattern character by character (`Pattern.accepts_nil`, `accepts_wildcard_cons`,
`accepts_cons`).
-/

namespace Kanban.Text

namespace Pattern

/-- A character of a pattern, other than `%`, stands for a character of a text. -/
def standsFor (p c : Char) : Bool := p = '_' || p.toLower = c.toLower

/-- Each entry or one after it. -/
def orLater (flags : List Bool) : List Bool :=
  flags.foldr (fun flag later => (flag || later.headD false) :: later) []

/-- For the whole text and each shorter tail of it: whether it matches the pattern. -/
def tails : (pattern text : List Char) → List Bool
  | [], text => text.map (fun _ => false) ++ [true]
  | p :: ps, text =>
    if p = '%' then orLater (tails ps text)
    else List.zipWith (fun c rest => standsFor p c && rest) text (tails ps text).tail ++ [false]

/-- The whole text matches the pattern. -/
def accepts (pattern text : List Char) : Bool := (tails pattern text).headD false

/-- The part of a text that is looked at, as it is read: up to the first `NUL`, and with the
replacement character for U+FFFE and U+FFFF. -/
def legible (text : List Char) : List Char :=
  (text.takeWhile (· ≠ '\x00')).map fun c =>
    if c = '\uFFFE' ∨ c = '\uFFFF' then '\uFFFD' else c

/-! ### Matching character by character -/

theorem orLater_cons (flag : Bool) (flags : List Bool) :
    orLater (flag :: flags) = (flag || (orLater flags).headD false) :: orLater flags := rfl

theorem tails_ne_nil (pattern text : List Char) : tails pattern text ≠ [] := by
  induction pattern with
  | nil => simp [tails]
  | cons p ps ih =>
    rw [tails]
    split
    · cases h : tails ps text with
      | nil => exact absurd h ih
      | cons flag flags => simp [orLater_cons]
    · simp

/-- A character in front of a text adds one entry and changes no other. -/
theorem tails_cons (pattern : List Char) (c : Char) (text : List Char) :
    (tails pattern (c :: text)).tail = tails pattern text := by
  induction pattern with
  | nil => simp [tails]
  | cons p ps ih =>
    cases h : tails ps (c :: text) with
    | nil => exact absurd h (tails_ne_nil ps (c :: text))
    | cons flag flags =>
      rw [h, List.tail_cons] at ih
      cases h' : tails ps text with
      | nil => exact absurd h' (tails_ne_nil ps text)
      | cons flag' flags' =>
        by_cases hp : p = '%' <;> simp [tails, hp, h, ih, h', orLater_cons]

theorem accepts_nil (text : List Char) : accepts [] text = text.isEmpty := by
  cases text <;> simp [accepts, tails]

/-- Any text is empty, or a character and again any text. -/
theorem accepts_wildcard_cons (ps : List Char) (c : Char) (text : List Char) :
    accepts ('%' :: ps) (c :: text) = (accepts ps (c :: text) || accepts ('%' :: ps) text) := by
  have htail := tails_cons ps c text
  cases h : tails ps (c :: text) with
  | nil => exact absurd h (tails_ne_nil ps (c :: text))
  | cons flag flags =>
    rw [h, List.tail_cons] at htail
    simp [accepts, tails, h, htail, orLater_cons]

theorem accepts_cons {p : Char} (hp : p ≠ '%') (ps : List Char) (c : Char) (text : List Char) :
    accepts (p :: ps) (c :: text) = (standsFor p c && accepts ps text) := by
  have htail := tails_cons ps c text
  cases h : tails ps text with
  | nil => exact absurd h (tails_ne_nil ps text)
  | cons flag flags => simp [accepts, tails, hp, htail, h]

end Pattern

/-- The text matches the pattern. -/
def matchesPattern (pattern text : List Char) : Bool :=
  Pattern.accepts (Pattern.legible pattern) (Pattern.legible text)

end Kanban.Text
