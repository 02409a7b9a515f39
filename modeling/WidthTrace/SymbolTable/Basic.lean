import WidthTrace.Address.Collection

/-!
# Symbol tables

Names of addresses, used to render addresses in messages.
-/

namespace WidthTrace

structure SymbolTable where
  names : AddressMap String

namespace SymbolTable

def empty : SymbolTable := ⟨∅⟩

instance : Inhabited SymbolTable := ⟨empty⟩

/-- Names an address; a later name for the same address wins. -/
def insert (table : SymbolTable) (address : Address) (name : String) : SymbolTable :=
  ⟨table.names.insert address name⟩

def ofList (symbols : List (Address × String)) : SymbolTable :=
  symbols.foldl (fun table (address, name) => table.insert address name) empty

def get? (table : SymbolTable) (address : Address) : Option String :=
  table.names[address]?

def contains (table : SymbolTable) (address : Address) : Bool :=
  table.names.contains address

def size (table : SymbolTable) : Nat :=
  table.names.size

def isEmpty (table : SymbolTable) : Bool :=
  table.names.isEmpty

/-- The names in address order. -/
def toList (table : SymbolTable) : List (Address × String) :=
  table.names.toList

/-- The name of an address, or its text if it has none. -/
def render (table : SymbolTable) (address : Address) : String :=
  (table.get? address).getD address.text

theorem get?_empty (address : Address) : empty.get? address = none := by
  simp [get?, empty]

theorem get?_insert (table : SymbolTable) (address other : Address) (name : String) :
    (table.insert address name).get? other =
      if address = other then some name else table.get? other := by
  simp [get?, insert, Std.TreeMap.getElem?_insert]

theorem get?_eq_render {table : SymbolTable} {address : Address}
    (named : table.contains address = true) : table.get? address = some (table.render address) := by
  rw [contains, Std.TreeMap.contains_eq_isSome_getElem?] at named
  obtain ⟨name, found⟩ := Option.isSome_iff_exists.mp named
  rw [render, get?, found]
  rfl

end SymbolTable

end WidthTrace
