import Kanban.Store.Basic
import Kanban.Text.Basic

/-!
# Users
-/

namespace Kanban

structure NewUser where
  username : String := ""
  name : String := ""

/-- The trimmed name of an account, which must not be blank. -/
def NewUser.validName (new : NewUser) : Except Failure String :=
  let username := Text.trimmed new.username
  if username.isEmpty then .error (.invalid .blankUsername) else .ok username

/-- Registers a user under a name that nobody has yet. -/
def Store.createUser (s : Store) (new : NewUser) : Except Failure (User × Store) := do
  let username ← new.validName
  if s.users.any (·.username == username) then
    .error (.invalid (.usernameTaken username))
  else .ok (s.addUser username (Text.trimmed new.name))

end Kanban
