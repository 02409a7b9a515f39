import WidthTrace.Manifest.Entry
import WidthTrace.Proofs.SymbolTable.Text

/-!
# How entries and symbols write numbers

An entry gives its address as an integer or as a text in one of four spellings, between
blanks, and the spellings of one number cannot be told apart. A number that reaches the
number of addresses is refused in every spelling, and so is what is no natural number. In
texts, of entries and of symbols alike, the digits may stand behind a plus sign, which no
description of the formats mentions.
-/

namespace WidthTrace.Manifest

open Json (Value Number NumberText)
open Text Numeral

/-! ## Spellings -/

/-- A number in text: hexadecimal after `0x`, `0X` or `$`, and decimal otherwise. Which runs of
characters write a number in a radix is left open. -/
inductive Spelling (Run : Nat → Nat → List Char → Prop) (n : Nat) : List Char → Prop
  | lowerHex {run : List Char} (written : Run 16 n run) : Spelling Run n ('0' :: 'x' :: run)
  | upperHex {run : List Char} (written : Run 16 n run) : Spelling Run n ('0' :: 'X' :: run)
  | dollar {run : List Char} (written : Run 16 n run) : Spelling Run n ('$' :: run)
  | decimal {run : List Char} (written : Run 10 n run) : Spelling Run n run

variable {n : Nat} {spelled : List Char} {text : String}

theorem Spelling.mono {Run Other : Nat → Nat → List Char → Prop}
    (spelling : Spelling Run n spelled)
    (other : ∀ radix run, run ⊆ spelled → Run radix n run → Other radix n run) :
    Spelling Other n spelled := by
  cases spelling with
  | lowerHex written => exact .lowerHex (other 16 _ (by simp) written)
  | upperHex written => exact .upperHex (other 16 _ (by simp) written)
  | dollar written => exact .dollar (other 16 _ (by simp) written)
  | decimal written => exact .decimal (other 10 _ (List.Subset.refl _) written)

theorem Spelling.signed (spelling : Spelling Spells n spelled) : Spelling Signed n spelled :=
  spelling.mono fun _ _ _ => .inl

/-- A plus sign is all that a number can have besides. -/
theorem spelling_signed_iff (noPlus : '+' ∉ spelled) :
    Spelling Signed n spelled ↔ Spelling Spells n spelled := by
  refine ⟨fun spelling => spelling.mono ?_, Spelling.signed⟩
  intro radix run within written
  exact written.spells fun member => noPlus (within member)

/-- The characters that mark a number, besides its digits. -/
def marks : List Char := ['x', 'X', '$', '+']

theorem mark_or_digit_of_signed {radix : Nat} (isRadix : IsRadix radix)
    (signed : Signed radix n spelled) {c : Char} (member : c ∈ spelled) :
    c ∈ marks ∨ ∃ value, digit? 16 c = some value := by
  by_cases plus : c = '+'
  · subst plus
    exact .inl (by decide)
  · obtain ⟨value, digit⟩ := digit?_of_signed isRadix signed member plus
    exact .inr ⟨value, digit?_sixteen isRadix.few digit⟩

theorem Spelling.mark_or_digit (spelling : Spelling Signed n spelled) {c : Char}
    (member : c ∈ spelled) : c ∈ marks ∨ ∃ value, digit? 16 c = some value := by
  cases spelling with
  | lowerHex written =>
      simp only [List.mem_cons] at member
      rcases member with rfl | rfl | member
      · exact .inr ⟨0, rfl⟩
      · exact .inl (by decide)
      · exact mark_or_digit_of_signed isRadix_sixteen written member
  | upperHex written =>
      simp only [List.mem_cons] at member
      rcases member with rfl | rfl | member
      · exact .inr ⟨0, rfl⟩
      · exact .inl (by decide)
      · exact mark_or_digit_of_signed isRadix_sixteen written member
  | dollar written =>
      rcases List.mem_cons.mp member with rfl | member
      · exact .inl (by decide)
      · exact mark_or_digit_of_signed isRadix_sixteen written member
  | decimal written => exact mark_or_digit_of_signed isRadix_ten written member

theorem Spelling.stands (spelling : Spelling Signed n spelled) :
    ∀ c ∈ spelled, isBlank c = false := by
  intro c member
  rcases spelling.mark_or_digit member with marked | ⟨value, digit⟩
  · simp only [marks, List.mem_cons, List.not_mem_nil, or_false] at marked
    rcases marked with rfl | rfl | rfl | rfl <;> rfl
  · exact (plain_of_digit? isRadix_sixteen.few digit).1

theorem Spelling.minus_not_mem (spelling : Spelling Signed n spelled) : '-' ∉ spelled := by
  intro member
  rcases spelling.mark_or_digit member with marked | ⟨value, digit⟩
  · exact absurd marked (by decide)
  · cases digit

/-- The marks of hexadecimal numbers are no decimal digits. -/
theorem not_mem_of_decimal (written : Signed 10 n spelled) :
    'x' ∉ spelled ∧ 'X' ∉ spelled ∧ '$' ∉ spelled := by
  have absent (c : Char) (noPlus : c ≠ '+') (none : digit? 10 c = none) : c ∉ spelled := by
    intro member
    obtain ⟨value, digit⟩ := digit?_of_signed isRadix_ten written member noPlus
    rw [none] at digit
    cases digit
  exact ⟨absent 'x' (by decide) rfl, absent 'X' (by decide) rfl, absent '$' (by decide) rfl⟩

/-! ## Numbers in texts -/

theorem numberOfText?_of_spelling (spelling : Spelling Signed n (trim text.toList)) :
    numberOfText? text = if n < numberBound then some n else none := by
  rw [numberOfText?]
  generalize trim text.toList = spelled at spelling
  cases spelling with
  | lowerHex written => exact read?_of_signed isRadix_sixteen written
  | upperHex written => exact read?_of_signed isRadix_sixteen written
  | dollar written => exact read?_of_signed isRadix_sixteen written
  | decimal written =>
      obtain ⟨noLower, noUpper, noDollar⟩ := not_mem_of_decimal written
      split
      · exact absurd (by simp) noLower
      · exact absurd (by simp) noUpper
      · exact absurd (by simp) noDollar
      · exact read?_of_signed isRadix_ten written

/-- A text is read as a number if it is a spelling of it, perhaps with a plus sign before the
digits. -/
theorem numberOfText?_eq_some_iff :
    numberOfText? text = some n ↔ n < numberBound ∧ Spelling Signed n (trim text.toList) := by
  constructor
  · intro read
    rw [numberOfText?] at read
    split at read
    · next spelled =>
        obtain ⟨below, written⟩ := (read?_eq_some_iff isRadix_sixteen).mp read
        exact ⟨below, spelled ▸ .lowerHex written⟩
    · next spelled =>
        obtain ⟨below, written⟩ := (read?_eq_some_iff isRadix_sixteen).mp read
        exact ⟨below, spelled ▸ .upperHex written⟩
    · next spelled =>
        obtain ⟨below, written⟩ := (read?_eq_some_iff isRadix_sixteen).mp read
        exact ⟨below, spelled ▸ .dollar written⟩
    · obtain ⟨below, written⟩ := (read?_eq_some_iff isRadix_ten).mp read
      exact ⟨below, .decimal written⟩
  · rintro ⟨below, spelling⟩
    rw [numberOfText?_of_spelling spelling, if_pos below]

theorem numberOfText?_of_minus (minus : '-' ∈ text.toList) : numberOfText? text = none := by
  rw [Option.eq_none_iff_forall_ne_some]
  intro n read
  have spelling := (numberOfText?_eq_some_iff.mp read).2
  exact spelling.minus_not_mem (mem_trim minus (by decide))

/-! ## Integers -/

/-- The digits of a number and nothing else. -/
def integerText (n : Nat) : NumberText :=
  ⟨false, Nat.toDigits 10 n, none, none⟩

theorem le_ofDigitChars (digits : List Char) (significand : Nat) :
    significand ≤ Nat.ofDigitChars 10 digits significand := by
  rw [Nat.ofDigitChars_eq_ofDigitChars_zero]
  exact Nat.le_add_right_of_le (Nat.le_mul_of_pos_left _ (Nat.pow_pos (by decide)))

theorem extend_of_lt {digits : List Char} {significand : Nat}
    (below : Nat.ofDigitChars 10 digits significand < numberBound) :
    Number.extend significand digits = (Nat.ofDigitChars 10 digits significand, []) := by
  induction digits generalizing significand with
  | nil => rfl
  | cons c rest ih =>
      rw [Nat.ofDigitChars_cons] at below ⊢
      have longer := Nat.lt_of_le_of_lt (le_ofDigitChars rest _) below
      rw [Number.extend, ← ih below]
      exact if_pos longer

theorem ofDigitChars_of_extend {digits : List Char} {significand value : Nat}
    (whole : Number.extend significand digits = (value, [])) :
    Nat.ofDigitChars 10 digits significand = value := by
  induction digits generalizing significand with
  | nil => exact congrArg Prod.fst whole
  | cons c rest ih =>
      rw [Number.extend] at whole
      split at whole
      · rw [Nat.ofDigitChars_cons]
        exact ih whole
      · cases whole

/-- An integer keeps its value as long as it fits 64 bits. -/
theorem ofText?_integerText (below : n < numberBound) :
    Number.ofText? (integerText n) = some (.natural n) := by
  have value : Nat.ofDigitChars 10 (Nat.toDigits 10 n) 0 = n := Nat.ofDigitChars_ten_toDigits
  have whole := extend_of_lt (value.symm ▸ below)
  rw [value] at whole
  rw [Number.ofText?, integerText, whole]
  rfl

theorem extend_of_ofText? {written : NumberText} {m : Nat}
    (read : Number.ofText? written = some (.natural m)) :
    Number.extend 0 written.integer = (m, []) := by
  have noFloat : (Number.float? written).map Number.float ≠ some (.natural m) := by
    intro float
    obtain ⟨_, _, other⟩ := Option.map_eq_some_iff.mp float
    cases other
  rw [Number.ofText?] at read
  split at read
  · next whole =>
      split at read
      · cases read
        exact whole
      · split at read
        · cases read
        · exact absurd read noFloat
  · exact absurd read noFloat

/-- An integer that is not kept does not become another. -/
theorem eq_of_ofText?_integerText {m : Nat}
    (read : Number.ofText? (integerText n) = some (.natural m)) : m = n := by
  rw [← ofDigitChars_of_extend (extend_of_ofText? read)]
  exact Nat.ofDigitChars_ten_toDigits

/-! ## Notations -/

/-- What an entry may hold for a number: an integer, or a text that spells the number between
blanks. -/
inductive Denotes (n : Nat) : Value → Prop
  | integer {number : Number} (read : Number.ofText? (integerText n) = some number) :
      Denotes n (.number number)
  | text {before spelled after : List Char} (blankBefore : ∀ c ∈ before, isBlank c = true)
      (blankAfter : ∀ c ∈ after, isBlank c = true) (spelling : Spelling Spells n spelled) :
      Denotes n (.string (String.ofList (before ++ spelled ++ after)))

theorem denotes_natural (below : n < numberBound) : Denotes n (.number (.natural n)) :=
  .integer (ofText?_integerText below)

theorem denotes_text (a : Address) : Denotes a.raw (.string a.text) := by
  have written : a.text = String.ofList ([] ++ '$' :: (paddedHex 6 a.raw).toList ++ []) := by
    rw [List.append_nil, List.nil_append, Address.text, ← String.toList_inj]
    simp
  rw [written]
  exact .text (by simp) (by simp) (.dollar (spells_paddedHex 6 a.raw))

/-- What is no natural number in any notation. -/
inductive Unnumbered : Value → Prop
  | negative (n : Nat) : Unnumbered (.number (.negative n))
  | float (value : Float) : Unnumbered (.number (.float value))
  | minus {text : String} (minus : '-' ∈ text.toList) : Unnumbered (.string text)
  | null : Unnumbered .null
  | bool (value : Bool) : Unnumbered (.bool value)
  | array (items : List Value) : Unnumbered (.array items)
  | object (members : List (String × Value)) : Unnumbered (.object members)

variable {value : Value}

theorem address?_natural (n : Nat) : address? (.number (.natural n)) =
    if n < Address.count then some (.ofNat n) else none := by
  simp only [address?, Option.filter_some, decide_eq_true_eq]
  split <;> rfl

theorem address?_string (text : String) :
    address? (.string text) =
      (numberOfText? text).bind fun n => address? (.number (.natural n)) := by
  rw [address?]
  cases numberOfText? text <;> rfl

/-- A notation gives the address of its number, if there is one. -/
theorem address?_of_denotes (denotes : Denotes n value) :
    address? value = if n < Address.count then some (.ofNat n) else none := by
  have wide (below : n < Address.count) : n < numberBound :=
    Nat.lt_trans below (by decide)
  cases denotes with
  | @integer number read =>
      cases number with
      | natural m =>
          obtain rfl := eq_of_ofText?_integerText read
          exact address?_natural m
      | negative m =>
          refine (if_neg fun below => ?_).symm
          cases read.symm.trans (ofText?_integerText (wide below))
      | float value =>
          refine (if_neg fun below => ?_).symm
          cases read.symm.trans (ofText?_integerText (wide below))
  | @text before spelled after blankBefore blankAfter spelling =>
      have trimmed : trim (String.ofList (before ++ spelled ++ after)).toList = spelled := by
        rw [String.toList_ofList, trim_surrounded blankBefore blankAfter,
          trim_of_no_blank spelling.signed.stands]
      have signed := spelling.signed
      rw [← trimmed] at signed
      rw [address?_string, numberOfText?_of_spelling signed]
      by_cases below : n < Address.count
      · rw [if_pos (wide below), Option.bind_some, address?_natural]
      · rw [if_neg below]
        split
        · rw [Option.bind_some, address?_natural, if_neg below]
        · rfl

theorem address?_of_unnumbered (unnumbered : Unnumbered value) : address? value = none := by
  cases unnumbered with
  | minus minus => rw [address?, numberOfText?_of_minus minus]; rfl
  | _ => rfl

/-! ## Entries -/

/-- The fields that give widths. -/
def widthFields : List String :=
  ["expected_m", "expected_x", "expected_exit_m", "expected_exit_x"]

/-- Each width field is absent or holds a width. -/
def HasWidths (members : List (String × Value)) : Prop :=
  ∀ field ∈ widthFields, ∀ value, Value.member? members field = some value →
    value = .null ∨ (size? value).isSome = true

variable {members : List (String × Value)} {defaultKind field : String}

theorem width_of_error {error : EntryError} (failed : width members field = .error error) :
    ∃ value, Value.member? members field = some value ∧ value ≠ .null ∧ size? value = none ∧
      error = .invalidWidth field value := by
  rw [width] at failed
  split at failed
  · cases failed
  · cases failed
  · next value present given =>
      split at failed
      · cases failed
      · next refused =>
          cases failed
          exact ⟨value, given, present, refused, rfl⟩

/-- An entry is refused for its address, or else for one of its widths, and otherwise gives a hook
at its address. -/
theorem hookOfValue_object_cases (given : Value.member? members "address" = some value) :
    (address? value = none ∧
      hookOfValue (.object members) defaultKind = .error (.invalidAddress value)) ∨
    ∃ a, address? value = some a ∧
      ((∃ field ∈ widthFields, ∃ error, width members field = .error error ∧
          hookOfValue (.object members) defaultKind = .error error) ∨
        (∀ field ∈ widthFields, ∃ w, width members field = .ok w) ∧
          ∃ hook, hookOfValue (.object members) defaultKind = .ok hook ∧ hook.address = a) := by
  simp only [hookOfValue, given]
  cases read : address? value with
  | none => exact .inl ⟨rfl, rfl⟩
  | some a =>
      refine .inr ⟨a, rfl, ?_⟩
      cases entryM : width members "expected_m" with
      | error error => exact .inl ⟨"expected_m", by decide, error, entryM, rfl⟩
      | ok m =>
        cases entryX : width members "expected_x" with
        | error error => exact .inl ⟨"expected_x", by decide, error, entryX, rfl⟩
        | ok x =>
          cases exitM : width members "expected_exit_m" with
          | error error => exact .inl ⟨"expected_exit_m", by decide, error, exitM, rfl⟩
          | ok outM =>
            cases exitX : width members "expected_exit_x" with
            | error error => exact .inl ⟨"expected_exit_x", by decide, error, exitX, rfl⟩
            | ok outX =>
              refine .inr ⟨?_, _, rfl, rfl⟩
              simp only [widthFields, List.forall_mem_cons]
              exact ⟨⟨m, entryM⟩, ⟨x, entryX⟩, ⟨outM, exitM⟩, ⟨outX, exitX⟩,
                fun _ member => absurd member List.not_mem_nil⟩

/-- An entry is refused for its address exactly if that is not read. -/
theorem hookOfValue_eq_invalidAddress_iff
    (given : Value.member? members "address" = some value) :
    hookOfValue (.object members) defaultKind = .error (.invalidAddress value) ↔
      address? value = none := by
  rcases hookOfValue_object_cases given with ⟨refused, error⟩ | ⟨a, read, outcome⟩
  · exact ⟨fun _ => refused, fun _ => error⟩
  · rw [read]
    refine iff_of_false ?_ (by simp)
    rcases outcome with ⟨_, _, _, failed, error⟩ | ⟨_, hook, declared, _⟩
    · obtain ⟨_, _, _, _, rfl⟩ := width_of_error failed
      rw [error]
      intro same
      cases same
    · rw [declared]
      intro same
      cases same

theorem exists_hookOfValue {a : Address} (given : Value.member? members "address" = some value)
    (read : address? value = some a) (widths : HasWidths members) :
    ∃ hook, hookOfValue (.object members) defaultKind = .ok hook ∧ hook.address = a := by
  rcases hookOfValue_object_cases given with ⟨refused, _⟩ | ⟨b, same, outcome⟩
  · rw [read] at refused
    cases refused
  · obtain rfl := Option.some.inj (read.symm.trans same)
    rcases outcome with ⟨field, listed, error, failed, _⟩ | ⟨_, hook, declared, placed⟩
    · obtain ⟨value, present, some, refused, _⟩ := width_of_error failed
      rcases widths field listed value present with null | sized
      · exact absurd null some
      · rw [refused] at sized
        cases sized
    · exact ⟨hook, declared, placed⟩

/-! ## What is accepted -/

theorem address?_string_eq_some_iff {a : Address} :
    address? (.string text) = some a ↔ Spelling Signed a.raw (trim text.toList) := by
  simp only [address?_string, Option.bind_eq_some_iff, address?_natural,
    Option.ite_none_right_eq_some, Option.some.injEq, numberOfText?_eq_some_iff]
  constructor
  · rintro ⟨n, ⟨_, spelling⟩, below, rfl⟩
    rwa [Address.raw_ofNat, Nat.mod_eq_of_lt below]
  · intro spelling
    exact ⟨a.raw, ⟨Nat.lt_trans a.raw_lt_count (by decide), spelling⟩, a.raw_lt_count,
      a.ofNat_raw⟩

theorem sizeOfBits?_eq_some_iff {bits : Nat} {size : RegisterSize} :
    sizeOfBits? bits = some size ↔ bits = size.bits := by
  constructor
  · intro read
    unfold sizeOfBits? RegisterSize.ofBits at read
    split at read <;> cases read <;> rfl
  · rintro rfl
    cases size <;> rfl

theorem size?_string_eq_some_iff {size : RegisterSize} :
    size? (.string text) = some size ↔ Spelling Signed size.bits (trim text.toList) := by
  have below : size.bits < numberBound := by
    cases size <;> decide
  simp only [size?, Option.bind_eq_some_iff, sizeOfBits?_eq_some_iff, exists_eq_right,
    numberOfText?_eq_some_iff, below, true_and]

theorem width_of_refused (given : Value.member? members field = some (.string text))
    (refused : size? (.string text) = none) :
    width members field = .error (.invalidWidth field (.string text)) := by
  simp only [width, given, refused]

theorem width_eq_known_iff {size : RegisterSize}
    (given : Value.member? members field = some (.string text)) :
    width members field = .ok (.known size) ↔ Spelling Signed size.bits (trim text.toList) := by
  rw [← size?_string_eq_some_iff]
  cases read : size? (.string text) with
  | none =>
      rw [width_of_refused given read]
      exact iff_of_false (fun same => by cases same) (fun same => by cases same)
  | some kept => simp only [width, given, read, Except.ok.injEq, Width.known.injEq,
      Option.some.injEq]

theorem width_of_unspelled (given : Value.member? members field = some (.string text))
    (unspelled : ∀ size : RegisterSize, ¬Spelling Signed size.bits (trim text.toList)) :
    width members field = .error (.invalidWidth field (.string text)) := by
  apply width_of_refused given
  rw [Option.eq_none_iff_forall_ne_some]
  intro size read
  exact unspelled size (size?_string_eq_some_iff.mp read)

theorem hookOfValue_of_width_error {error : EntryError}
    (listed : field ∈ widthFields) (failed : width members field = .error error) :
    ∃ error, hookOfValue (.object members) defaultKind = .error error := by
  cases given : Value.member? members "address" with
  | none => exact ⟨.missingAddress, by simp only [hookOfValue, given]; rfl⟩
  | some value =>
      rcases hookOfValue_object_cases given with ⟨_, refused⟩ | ⟨_, _, outcome⟩
      · exact ⟨_, refused⟩
      · rcases outcome with ⟨_, _, error, _, refused⟩ | ⟨accepted, _⟩
        · exact ⟨error, refused⟩
        · obtain ⟨w, known⟩ := accepted field listed
          rw [failed] at known
          cases known

/-! ## The main results -/

/--
Addresses and widths in text are read in the described spellings, with or without a plus sign before
the digits, and so are the places of symbols. With an address in any other text an entry is refused
for it, with a width in any other text it is refused, and a symbol line that names no such place is
passed over. Where no plus sign stands, therefore, the described spellings are read and no others.
-/
theorem numbers_are_read_with_and_without_plus_sign (members : List (String × Value))
    (defaultKind field text : String) (reader : SymbolTable.Reader) (line : List Char) :
    (Value.member? members "address" = some (.string text) →
      (hookOfValue (.object members) defaultKind = .error (.invalidAddress (.string text)) ↔
        ¬∃ n < Address.count, Spelling Signed n (trim text.toList))) ∧
    (field ∈ widthFields → Value.member? members field = some (.string text) →
      (∀ size : RegisterSize, width members field = .ok (.known size) ↔
        Spelling Signed size.bits (trim text.toList)) ∧
      ((∀ size : RegisterSize, ¬Spelling Signed size.bits (trim text.toList)) →
        ∃ error, hookOfValue (.object members) defaultKind = .error error)) ∧
    (∀ (a : Address) (name : String),
      SymbolTable.entry? line = some (a, name) ↔ ∃ location blank rest,
        line = location ++ blank :: rest ∧ isBlank blank = true ∧
          SymbolTable.Places Signed a location ∧ firstWord? rest = some name.toList) ∧
    (¬SymbolTable.IsHeader line →
      (∀ a location blank rest, trim line = location ++ blank :: rest → isBlank blank = true →
        ¬SymbolTable.Places Signed a location) →
      reader.line line = reader) ∧
    ('+' ∉ trim text.toList → ∀ n,
      Spelling Signed n (trim text.toList) ↔ Spelling Spells n (trim text.toList)) ∧
    ∀ location, '+' ∉ location → ∀ a,
      SymbolTable.Places Signed a location ↔ SymbolTable.Places Spells a location := by
  refine ⟨?address, ?width, fun _ _ => SymbolTable.entry?_eq_some_iff, ?line, ?text, ?place⟩
  case address =>
    intro given
    rw [hookOfValue_eq_invalidAddress_iff given, Option.eq_none_iff_forall_ne_some, not_exists]
    constructor
    · rintro unread n ⟨below, spelling⟩
      have placed : (Address.ofNat n).raw = n := by
        rw [Address.raw_ofNat, Nat.mod_eq_of_lt below]
      exact unread (.ofNat n) (address?_string_eq_some_iff.mpr (placed.symm ▸ spelling))
    · intro unspelled a read
      exact unspelled a.raw ⟨a.raw_lt_count, address?_string_eq_some_iff.mp read⟩
  case width =>
    intro listed given
    refine ⟨fun _ => width_eq_known_iff given, fun unspelled => ?_⟩
    exact hookOfValue_of_width_error listed (width_of_unspelled given unspelled)
  case line =>
    intro plain elsewhere
    apply reader.line_of_malformed plain
    rw [Option.eq_none_iff_forall_ne_some]
    rintro ⟨a, name⟩ read
    obtain ⟨location, blank, rest, parts, isBlank, places, _⟩ :=
      SymbolTable.entry?_eq_some_iff.mp read
    exact elsewhere a location blank rest parts isBlank places
  case text => exact fun noPlus _ => spelling_signed_iff noPlus
  case place => exact fun _ noPlus _ => SymbolTable.places_signed_iff noPlus

/-- An entry with plus signs. -/
def plusEntry : List (String × Value) :=
  [("address", .string "+34689"), ("expected_m", .string "0x+8")]

theorem plusEntry_is_read_and_garbage_is_not :
    hookOfValue (.object plusEntry) "jsl" ≠ .error (.invalidAddress (.string "+34689")) ∧
    width plusEntry "expected_m" = .ok (.known .byte) ∧
    SymbolTable.Reader.line ⟨SymbolTable.empty, true⟩ "garbage".toList =
      ⟨SymbolTable.empty, true⟩ := by
  obtain ⟨address, _, _, line, _⟩ := numbers_are_read_with_and_without_plus_sign plusEntry "jsl"
    "expected_m" "+34689" ⟨SymbolTable.empty, true⟩ "garbage".toList
  obtain ⟨_, width, _⟩ := numbers_are_read_with_and_without_plus_sign plusEntry "jsl"
    "expected_m" "0x+8" ⟨SymbolTable.empty, true⟩ "garbage".toList
  refine ⟨?_, ?_, ?_⟩
  · rw [Ne, address rfl, not_not]
    exact ⟨34689, by decide, .decimal (.inr ⟨_, rfl, 0, by decide⟩)⟩
  · rw [(width (by decide) rfl).1]
    exact .lowerHex (.inr ⟨_, rfl, 0, by decide⟩)
  · apply line
    · rintro ⟨rest, header⟩
      cases header
    · intro a location blank rest parts blank_isBlank
      have unbroken : (trim "garbage".toList).all (fun c => !isBlank c) = true := by
        decide
      rw [parts, List.all_eq_true] at unbroken
      have stands := unbroken blank (by simp)
      rw [blank_isBlank] at stands
      cases stands

/-- A plus sign is no part of the described spellings, and is read all the same. -/
theorem plus_signs_are_read_though_not_described :
    ((∃ hook, hookOfValue (.object plusEntry) "jsl" = .ok hook ∧ hook.address = ⟨0x00, 0x8781⟩) ∧
      ¬∃ n, Spelling Spells n (trim "+34689".toList)) ∧
    SymbolTable.entry? "+00:+8000 Name".toList = some (⟨0x00, 0x8000⟩, "Name") ∧
      ¬∃ a, SymbolTable.Places Spells a "+00:+8000".toList := by
  refine ⟨⟨⟨_, rfl, rfl⟩, ?_⟩, by decide, ?_⟩
  · rintro ⟨n, spelling⟩
    have trimmed : trim "+34689".toList = "+34689".toList := by
      decide
    rw [trimmed] at spelling
    cases spelling with
    | decimal written => exact plus_not_mem_of_spells isRadix_ten written List.mem_cons_self
  · rintro ⟨a, bank, offset, parts, bankSpells, offsetSpells⟩
    have member : '+' ∈ bank ++ ':' :: offset := parts ▸ List.mem_cons_self
    simp only [List.mem_append, List.mem_cons] at member
    rcases member with inBank | colon | inOffset
    · exact plus_not_mem_of_spells isRadix_sixteen bankSpells inBank
    · cases colon
    · exact plus_not_mem_of_spells isRadix_sixteen offsetSpells inOffset

/--
The integer, the printed form and every spelling of an address, between any blanks, give a hook at
this address, if no width is refused. Whatever else an entry holds, it is refused for its address if
that is a notation of a number that reaches the number of addresses, or no natural number.
-/
theorem address_notations_agree :
    (∀ n < numberBound, Denotes n (.number (.natural n))) ∧
    (∀ a : Address, Denotes a.raw (.string a.text)) ∧
    ∀ (members : List (String × Value)) (defaultKind : String) (value : Value),
      Value.member? members "address" = some value →
      (∀ a : Address, Denotes a.raw value → HasWidths members →
        ∃ hook, hookOfValue (.object members) defaultKind = .ok hook ∧ hook.address = a) ∧
      ((∃ n, Address.count ≤ n ∧ Denotes n value) ∨ Unnumbered value →
        hookOfValue (.object members) defaultKind = .error (.invalidAddress value)) := by
  refine ⟨fun n below => denotes_natural below, denotes_text, ?_⟩
  intro members defaultKind value given
  constructor
  case left =>
    intro a denotes widths
    have read := address?_of_denotes denotes
    rw [if_pos a.raw_lt_count, Address.ofNat_raw] at read
    exact exists_hookOfValue given read widths
  case right =>
    rintro (⟨n, reaches, denotes⟩ | unnumbered)
    · have refused := address?_of_denotes denotes
      rw [if_neg (Nat.not_lt.mpr reaches)] at refused
      exact (hookOfValue_eq_invalidAddress_iff given).mpr refused
    · exact (hookOfValue_eq_invalidAddress_iff given).mpr (address?_of_unnumbered unnumbered)

/-- An entry whose address stands between blanks. -/
def spacedEntry : List (String × Value) :=
  [("address", .string " 0X008781\t"), ("expected_m", .number (.natural 8))]

/-- An entry whose address comes after the last one, and whose width is none. -/
def pastEntry : List (String × Value) :=
  [("address", .number (.natural 0x1000000)), ("expected_m", .string "wide")]

theorem spacedEntry_is_placed_and_pastEntry_is_refused :
    (∃ hook, hookOfValue (.object spacedEntry) "jsl" = .ok hook ∧ hook.address = ⟨0x00, 0x8781⟩) ∧
    hookOfValue (.object pastEntry) "jsl" =
      .error (.invalidAddress (.number (.natural 0x1000000))) := by
  obtain ⟨integers, _, entries⟩ := address_notations_agree
  constructor
  case left =>
    have denotes :
        Denotes 0x8781 (.string (String.ofList ([' '] ++ "0X008781".toList ++ ['\t']))) :=
      .text (List.forall_mem_singleton.mpr rfl) (List.forall_mem_singleton.mpr rfl)
        (.upperHex ⟨2, by decide⟩)
    have widths : HasWidths spacedEntry := by
      intro field listed value given
      simp only [widthFields, List.mem_cons, List.not_mem_nil, or_false] at listed
      rcases listed with rfl | rfl | rfl | rfl
      · cases given
        exact .inr rfl
      all_goals cases given
    exact (entries spacedEntry "jsl" _ rfl).1 ⟨0x00, 0x8781⟩ denotes widths
  case right =>
    exact (entries pastEntry "jsl" _ rfl).2 (.inl ⟨0x1000000, by decide, integers _ (by decide)⟩)

end WidthTrace.Manifest
