import WidthTrace.Manifest.Basic
import WidthTrace.Manifest.Entry

/-!
# Manifest documents

A manifest is an object with the lists `hooks` and `critical_addresses`, or an
array of the two. Either list may be left out, but neither may be given twice.
Other members of the object need only be well formed. Entries that declare no
hook are counted and left out.
-/

namespace WidthTrace.Manifest

open Json (Tree Value)

/-- The two lists of a document, as far as they have been given. -/
structure Lists where
  hooks : Option (List Value)
  critical : Option (List Value)

/-- The values of a list inside the outermost container. -/
def listOfTree? (tree : Tree) : Option (List Value) :=
  match Value.ofTree? (Value.maxDepth - 1) tree with
  | some (.array items) => some items
  | _ => none

/-- Takes one member of a document into account. -/
def Lists.add? (lists : Lists) (key : List Json.Piece) (tree : Tree) : Option Lists :=
  match Json.Piece.text? key with
  | none => none
  | some "hooks" =>
      if lists.hooks.isSome then none
      else (listOfTree? tree).map fun items => { lists with hooks := some items }
  | some "critical_addresses" =>
      if lists.critical.isSome then none
      else (listOfTree? tree).map fun items => { lists with critical := some items }
  | some _ => some lists

def Lists.ofTree? : Tree → Option Lists
  | .object members => members.foldlM (fun lists (key, tree) => lists.add? key tree) ⟨none, none⟩
  | .array [] => some ⟨none, none⟩
  | .array [hooks] => (listOfTree? hooks).map fun items => ⟨some items, none⟩
  | .array [hooks, critical] => do
      let hooks ← listOfTree? hooks
      let critical ← listOfTree? critical
      return ⟨some hooks, some critical⟩
  | _ => none

/-- The hooks that a list of entries declares, and the number of entries that declare none. -/
def declared (entries : List Value) (defaultKind : String) : List Hook × Nat :=
  let hooks := entries.filterMap fun entry => (hookOfValue entry defaultKind).toOption
  (hooks, entries.length - hooks.length)

/-- The manifest of a text, unless the text is no manifest document. -/
def ofText? (text : String) : Option Manifest := do
  let lists ← (Tree.ofText? text).bind Lists.ofTree?
  let (hooks, skippedHooks) := declared (lists.hooks.getD []) "jsl"
  let (critical, skippedCritical) := declared (lists.critical.getD []) "patch"
  return ⟨hooks, critical, skippedHooks + skippedCritical⟩

end WidthTrace.Manifest
