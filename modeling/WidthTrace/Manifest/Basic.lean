import WidthTrace.Hook.Basic

/-!
# Manifests

A manifest declares hooks, which are entered and validated, and critical
addresses, whose contracts are validated only. It also counts the entries that
could not be read.
-/

namespace WidthTrace

structure Manifest where
  hooks : List Hook
  critical : List Hook
  skipped : Nat

namespace Manifest

/-- The manifest that declares hooks and nothing else. -/
def ofHooks (hooks : List Hook) : Manifest :=
  ⟨hooks, [], 0⟩

/-- Every declared contract, hooks first. -/
def contracts (manifest : Manifest) : List Hook :=
  manifest.hooks ++ manifest.critical

end Manifest

end WidthTrace
