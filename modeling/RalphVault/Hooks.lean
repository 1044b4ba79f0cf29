import RalphVault.Text

/-!
# Hooks

What the hooks know about the session and the workspace they run in
(`ActiveContext`), and what they rely on of the interpreter.
-/

namespace RalphVault.Hooks

/-- The interpreter and its libraries. -/
structure Platform where
  sha256 : Text → Text
  unicode : Unicode

structure ActiveContext where
  projectId : Text
  projectSlug : Text
  workspaceRoot : Text
  workspaceInstanceId : Text
  sessionId : Text
  branch : Text
  sha : Text
deriving DecidableEq

end RalphVault.Hooks
