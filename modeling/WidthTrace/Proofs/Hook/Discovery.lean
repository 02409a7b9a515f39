import Mathlib.Data.List.Nodup
import WidthTrace.Hook.Discovery

/-!
# What is discovered

A position calls an address if the bytes there are those of a long call to it. The hooks
found in an image are the named addresses that some position calls, each once, in the
order of the first positions that call them. This holds of what is found before any
position on the way.
-/

namespace WidthTrace

namespace Hook

variable {bytes : ByteArray} {symbols : SymbolTable} {position count : Nat} {target : Address}
  {targets : List Address}

/-- The byte at the position is the opcode of a long call, and the three bytes after it are those of
the target, least significant first. -/
def CallsAt (bytes : ByteArray) (position : Nat) (target : Address) : Prop :=
  bytes[position]? = some longCall ∧
    bytes[position + 1]? = some (UInt8.ofNat target.raw) ∧
    bytes[position + 2]? = some (UInt8.ofNat (target.raw / 0x100)) ∧
    bytes[position + 3]? = some (UInt8.ofNat (target.raw / 0x10000))

theorem longCallAt?_eq_some_iff :
    longCallAt? bytes position = some target ↔ CallsAt bytes position target := by
  simp only [longCallAt?, CallsAt, bind, Option.bind_eq_some_iff, Option.ite_none_right_eq_some,
    Option.some.injEq, Address.ofBytes_eq_iff]
  constructor
  · rintro ⟨_, opcode, _, low, _, middle, _, bank, rfl, rfl, rfl, rfl⟩
    exact ⟨opcode, low, middle, bank⟩
  · rintro ⟨opcode, low, middle, bank⟩
    exact ⟨_, opcode, _, low, _, middle, _, bank, rfl, rfl, rfl, rfl⟩

theorem CallsAt.lt_size (calls : CallsAt bytes position target) : position < bytes.size := by
  have read := congrArg Option.isSome calls.1
  rwa [Option.isSome_some, isSome_getElem?] at read

/-- A position calls one address at most. -/
theorem CallsAt.unique {other : Address} (calls : CallsAt bytes position target)
    (also : CallsAt bytes position other) : target = other :=
  Option.some.inj <| (longCallAt?_eq_some_iff.mpr calls).symm.trans
    (longCallAt?_eq_some_iff.mpr also)

/-- The first position that calls one address comes before every position that calls the other. -/
def CalledBefore (bytes : ByteArray) (first second : Address) : Prop :=
  ∃ position, CallsAt bytes position first ∧ ∀ later, CallsAt bytes later second → position < later

/-- The named addresses that are called before a position, each once. -/
def targetsBefore (bytes : ByteArray) (symbols : SymbolTable) (count : Nat) : List Address :=
  (((List.range count).filterMap (longCallAt? bytes)).filter symbols.contains).eraseDups

/-- A position adds the named address that it calls, unless it was found before. -/
theorem targetsBefore_succ (bytes : ByteArray) (symbols : SymbolTable) (count : Nat) :
    targetsBefore bytes symbols (count + 1) = targetsBefore bytes symbols count ++
      ((longCallAt? bytes count).filter fun target =>
        decide (target ∉ targetsBefore bytes symbols count) && symbols.contains target).toList := by
  have known (target : Address) : (((List.range count).filterMap (longCallAt? bytes)).filter
      symbols.contains).elem target = decide (target ∈ targetsBefore bytes symbols count) := by
    rw [Bool.eq_iff_iff, List.elem_iff, decide_eq_true_eq, targetsBefore, List.mem_eraseDups]
  have single : List.filterMap (longCallAt? bytes) [count] = (longCallAt? bytes count).toList := by
    cases called : longCallAt? bytes count <;> simp [called]
  rw [targetsBefore, List.range_succ, List.filterMap_append, List.filter_append,
    List.eraseDups_append, List.removeAll, List.filter_filter, single, ← targetsBefore]
  simp only [known, ← Option.toList_filter, decide_not]
  generalize Option.filter _ _ = fresh
  cases fresh <;> rfl

/-- What has been found before a position. -/
structure Found (bytes : ByteArray) (symbols : SymbolTable) (count : Nat)
    (targets : List Address) : Prop where
  once : targets.Nodup
  exact (target : Address) : target ∈ targets ↔
    symbols.contains target = true ∧ ∃ position < count, CallsAt bytes position target
  ordered : targets.Pairwise (CalledBefore bytes)

theorem found_start : Found bytes symbols 0 [] where
  once := .nil
  exact target := by simp
  ordered := .nil

/-- A named address that was not found before is found last. -/
theorem Found.add (found : Found bytes symbols count targets)
    (calls : CallsAt bytes count target) (named : symbols.contains target = true)
    (new : target ∉ targets) : Found bytes symbols (count + 1) (targets ++ [target]) where
  once := List.nodup_append.mpr ⟨found.once, List.nodup_singleton _, by
    rintro a listed b single rfl
    exact new (List.mem_singleton.mp single ▸ listed)⟩
  exact other := by
    rw [List.mem_append, List.mem_singleton, found.exact other]
    constructor
    · rintro (⟨known, position, before, called⟩ | rfl)
      · exact ⟨known, position, Nat.lt_succ_of_lt before, called⟩
      · exact ⟨named, count, Nat.lt_succ_self _, calls⟩
    · rintro ⟨known, position, before, called⟩
      rcases Nat.lt_succ_iff_lt_or_eq.mp before with earlier | rfl
      · exact .inl ⟨known, position, earlier, called⟩
      · exact .inr (called.unique calls)
  ordered := by
    refine List.pairwise_append.mpr ⟨found.ordered, List.pairwise_singleton _ _, ?_⟩
    intro first listed second single
    rw [List.mem_singleton.mp single]
    obtain ⟨_, position, before, called⟩ := (found.exact first).mp listed
    refine ⟨position, called, fun later again => Nat.lt_of_lt_of_le before ?_⟩
    by_contra early
    exact new ((found.exact target).mpr ⟨named, later, Nat.lt_of_not_le early, again⟩)

/-- A position that calls nothing new leaves what was found. -/
theorem Found.skip (found : Found bytes symbols count targets)
    (old : ∀ target, CallsAt bytes count target → symbols.contains target = true →
      target ∈ targets) : Found bytes symbols (count + 1) targets where
  once := found.once
  exact target := by
    rw [found.exact target]
    constructor
    · rintro ⟨named, position, before, called⟩
      exact ⟨named, position, Nat.lt_succ_of_lt before, called⟩
    · rintro ⟨named, position, before, called⟩
      rcases Nat.lt_succ_iff_lt_or_eq.mp before with earlier | rfl
      · exact ⟨named, position, earlier, called⟩
      · exact (found.exact target).mp (old target called named)
  ordered := found.ordered

theorem found_targetsBefore (bytes : ByteArray) (symbols : SymbolTable) (count : Nat) :
    Found bytes symbols count (targetsBefore bytes symbols count) := by
  induction count with
  | zero => exact found_start
  | succ count ih =>
      rw [targetsBefore_succ]
      cases called : longCallAt? bytes count with
      | none =>
          rw [Option.filter_none, Option.toList_none, List.append_nil]
          refine ih.skip fun target calls _ => ?_
          rw [longCallAt?_eq_some_iff.mpr calls] at called
          cases called
      | some target =>
          have calls := longCallAt?_eq_some_iff.mp called
          by_cases new : target ∉ targetsBefore bytes symbols count ∧ symbols.contains target = true
          · rw [Option.filter_some, if_pos (by simpa using new)]
            exact ih.add calls new.2 new.1
          · rw [Option.filter_some, if_neg (by simpa using new), Option.toList_none,
              List.append_nil]
            refine ih.skip fun other again named => ?_
            cases calls.unique again
            exact not_not.mp fun missing => new ⟨missing, named⟩

theorem discover_eq (image : Image) (symbols : SymbolTable) :
    discover image symbols = (targetsBefore image.bytes symbols image.bytes.size).map
      fun target => plain (symbols.render target) target .jsl := rfl

theorem map_address_discover (image : Image) (symbols : SymbolTable) :
    (discover image symbols).map Hook.address =
      targetsBefore image.bytes symbols image.bytes.size := by
  rw [discover_eq, List.map_map]
  exact List.map_id _

theorem mem_addresses_discover {image : Image} :
    target ∈ (discover image symbols).map Hook.address ↔
      symbols.contains target = true ∧ ∃ position, CallsAt image.bytes position target := by
  rw [map_address_discover, (found_targetsBefore _ _ _).exact]
  constructor
  · rintro ⟨named, position, _, calls⟩
    exact ⟨named, position, calls⟩
  · rintro ⟨named, position, calls⟩
    exact ⟨named, position, calls.lt_size, calls⟩

/-- The addresses of the hooks found in an image are those that have a name and are called at some
position, each once. Every hook has the name of its address and no contract, and the hooks stand in
the order of the first positions that call them. -/
theorem discovered_hooks_are_called_names (image : Image) (symbols : SymbolTable) :
    ((discover image symbols).map Hook.address).Nodup ∧
    (∀ target, target ∈ (discover image symbols).map Hook.address ↔
      (∃ name, symbols.get? target = some name) ∧
        ∃ position, CallsAt image.bytes position target) ∧
    (∀ hook ∈ discover image symbols, symbols.get? hook.address = some hook.name ∧
      hook = plain hook.name hook.address .jsl) ∧
    (discover image symbols).Pairwise fun first second =>
      CalledBefore image.bytes first.address second.address := by
  have found := found_targetsBefore image.bytes symbols image.bytes.size
  refine ⟨?once, ?exact, ?named, ?ordered⟩
  case once =>
    rw [map_address_discover]
    exact found.once
  case exact =>
    intro target
    rw [mem_addresses_discover, SymbolTable.contains, Std.TreeMap.contains_eq_isSome_getElem?,
      Option.isSome_iff_exists]
    rfl
  case named =>
    intro hook listed
    rw [discover_eq] at listed
    obtain ⟨target, member, rfl⟩ := List.mem_map.mp listed
    exact ⟨SymbolTable.get?_eq_render ((found.exact target).mp member).1, rfl⟩
  case ordered =>
    rw [discover_eq, List.pairwise_map]
    exact found.ordered

/-- The operand of one long call may hold the opcode of the next. -/
example : (discover ⟨⟨#[0x22, 0x22, 0x80, 0x00, 0x80]⟩, .loRom⟩
    (.ofList [(⟨0x80, 0x0080⟩, "Second"), (⟨0x00, 0x8022⟩, "First")])).map Hook.name =
      ["First", "Second"] := by
  decide +kernel

end Hook

end WidthTrace
