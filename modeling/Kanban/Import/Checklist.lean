import Kanban.Text.Basic

/-!
# Checklists

The checklists of an imported task are written into its description as lists in markup.  The
characters that mean something in markup are escaped in all names (`Markup.escape`).
-/

namespace Kanban

structure ChecklistItem where
  name : String := ""
  checked : Bool := false
  deriving DecidableEq

structure Checklist where
  name : String := ""
  items : List ChecklistItem := []
  deriving DecidableEq

namespace Markup

/-- A character as it is written in markup. -/
def escapeChar (c : Char) : List Char :=
  if c = '&' then "&amp;".toList
  else if c = '<' then "&lt;".toList
  else if c = '>' then "&gt;".toList
  else [c]

/-- A text as it is written in markup. -/
def escape (cs : List Char) : List Char := cs.flatMap escapeChar

end Markup

namespace Checklist

/-- An item with its box, checked or not. -/
def itemMarkup (i : ChecklistItem) : List Char :=
  let state := if i.checked then "true" else "false"
  let box :=
    if i.checked then "<input type=\"checkbox\" checked=\"checked\">"
    else "<input type=\"checkbox\">"
  ("\n<li data-checked=\"" ++ state ++ "\" data-type=\"taskItem\"><label>" ++ box ++
    "<span></span></label><div><p>").toList ++
    Markup.escape i.name.toList ++ "</p></div></li>".toList

/-- A heading with the name and then the items. -/
def markup (c : Checklist) : List Char :=
  "\n\n<h2>".toList ++ Markup.escape c.name.toList ++
    "</h2>\n\n<ul data-type=\"taskList\">".toList ++ c.items.flatMap itemMarkup ++
    "</ul>".toList

/-- A description followed by checklists, without leading white space.  Without checklists the
description stays as it is. -/
def describe (description : Option String) (checklists : List Checklist) : Option String :=
  if checklists.isEmpty then description
  else
    some (String.ofList
      (Text.trimStart ((description.getD "").toList ++ checklists.flatMap markup)))

end Checklist

end Kanban
