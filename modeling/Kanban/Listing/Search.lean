import Kanban.Store.Row
import Kanban.Text.Integer
import Kanban.Text.Pattern

/-!
# Search

Apart from a filter, tasks are searched for a text in the title or the description or, when the text
is a number, for an id (`Search.matchesTask`).  A blank text finds every task.
-/

namespace Kanban

/-- What tasks are searched for. -/
structure Search where
  /-- The text without white space around it. -/
  text : List Char

namespace Search

def ofText (text : String) : Search := ⟨Text.trim text.toList⟩

/-- Nothing is searched for. -/
def isBlank (s : Search) : Bool := s.text.isEmpty

/-- The pattern of titles and descriptions that contain the text. -/
def pattern (s : Search) : List Char := ['%'] ++ s.text ++ ['%']

/-- The id that is searched for: a number after any number signs. -/
def id? (s : Search) : Option Int := Integer.int64? (s.text.dropWhile (· == '#'))

/-- The task contains the text in its title or description, or has the id. -/
def matchesTask (s : Search) (t : Task) : Bool :=
  s.isBlank || Text.matchesPattern s.pattern t.title.toList ||
    t.description.any (fun d => Text.matchesPattern s.pattern d.toList) || s.id? == some t.id

end Search

end Kanban
