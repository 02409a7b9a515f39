import WidthTrace.Proofs.Text.Blank
import WidthTrace.Proofs.Text.Numeral
import WidthTrace.SymbolTable.Text

/-!
# What symbol files describe

The lines of a file give a list of names, section by section, and the table is the one that
this list builds. A header forgets what went before it, so that texts joined at a header give
their lists one after the other; lines that are neither headers nor entries of a section that
is read give nothing; and lines written for a list of names give that list.
-/

namespace WidthTrace.SymbolTable

open Text Numeral

/-! ## Tables of lists -/

theorem ofList_concat (symbols : List (Address × String)) (address : Address) (name : String) :
    ofList (symbols ++ [(address, name)]) = (ofList symbols).insert address name :=
  List.foldl_concat ..

/-- The last name given for an address wins. -/
theorem get?_ofList (symbols : List (Address × String)) (a : Address) :
    (ofList symbols).get? a =
      (symbols.reverse.find? fun symbol => symbol.1 == a).map Prod.snd := by
  induction symbols using List.reverseRecOn with
  | nil => exact get?_empty a
  | append_singleton symbols symbol ih =>
      obtain ⟨address, name⟩ := symbol
      rw [ofList_concat, get?_insert, List.reverse_concat, List.find?_cons, ih]
      split
      · next same => rw [same, beq_self_eq_true, Option.map_some]
      · next different => rw [beq_eq_false_iff_ne.mpr different]

theorem get?_ofList_append (first second : List (Address × String)) (a : Address) :
    (ofList (first ++ second)).get? a = ((ofList second).get? a).or ((ofList first).get? a) := by
  rw [get?_ofList, get?_ofList, get?_ofList, List.reverse_append, List.find?_append,
    Option.map_or]

/-! ## Entries -/

variable {line text : List Char} {parts others : List (List Char)} {reading : Bool}

/-- The bank and the offset of an address on both sides of a colon, in hexadecimal. Which runs of
characters write a number in a radix is left open. -/
def Places (Run : Nat → Nat → List Char → Prop) (address : Address) (location : List Char) : Prop :=
  ∃ bank offset, location = bank ++ ':' :: offset ∧
    Run 16 address.bank.toNat bank ∧ Run 16 address.offset.toNat offset

theorem Places.stands {address : Address} {location : List Char}
    (places : Places Signed address location) : ∀ c ∈ location, isBlank c = false := by
  obtain ⟨bank, offset, rfl, bankSigned, offsetSigned⟩ := places
  intro c member
  rcases List.mem_append.mp member with before | after
  · exact (plain_of_signed isRadix_sixteen bankSigned before).1
  · rcases List.mem_cons.mp after with rfl | after
    · decide
    · exact (plain_of_signed isRadix_sixteen offsetSigned after).1

/-- A plus sign is all that the digits can have besides. -/
theorem places_signed_iff {address : Address} {location : List Char} (noPlus : '+' ∉ location) :
    Places Signed address location ↔ Places Spells address location := by
  constructor
  · rintro ⟨bank, offset, rfl, bankSigned, offsetSigned⟩
    refine ⟨bank, offset, rfl, bankSigned.spells ?_, offsetSigned.spells ?_⟩
    · exact fun member => noPlus (List.mem_append_left _ member)
    · exact fun member => noPlus (List.mem_append_right _ (List.mem_cons_of_mem _ member))
  · rintro ⟨bank, offset, rfl, bankSpells, offsetSpells⟩
    exact ⟨bank, offset, rfl, .inl bankSpells, .inl offsetSpells⟩

/-- A line is an entry if the place of an address stands before its first blank, and a word after
it. -/
theorem entry?_eq_some_iff {address : Address} {name : String} :
    entry? line = some (address, name) ↔ ∃ location blank rest,
      line = location ++ blank :: rest ∧ isBlank blank = true ∧ Places Signed address location ∧
        firstWord? rest = some name.toList := by
  simp only [bind, entry?, Option.bind_eq_some_iff, pure, Option.some.injEq, Prod.exists,
    Prod.mk.injEq, splitFirst?_eq_some_iff]
  constructor
  · rintro ⟨_, rest, ⟨blank, rfl, isBlank, _⟩, bank, offset, ⟨colon, rfl, isColon, _⟩, bankValue,
      bankRead, offsetValue, offsetRead, word, named, rfl, rfl⟩
    obtain rfl := beq_iff_eq.mp isColon
    obtain ⟨bankBelow, bankSigned⟩ := (read?_eq_some_iff isRadix_sixteen).mp bankRead
    obtain ⟨offsetBelow, offsetSigned⟩ := (read?_eq_some_iff isRadix_sixteen).mp offsetRead
    refine ⟨bank ++ ':' :: offset, blank, rest, rfl, isBlank, ⟨bank, offset, rfl, ?_, ?_⟩, ?_⟩
    · rwa [UInt8.toNat_ofNat_of_lt' bankBelow]
    · rwa [UInt16.toNat_ofNat_of_lt' offsetBelow]
    · rw [named, String.toList_ofList]
  · rintro ⟨location, blank, rest, rfl, isBlank, places, named⟩
    have stands := places.stands
    obtain ⟨bank, offset, rfl, bankSigned, offsetSigned⟩ := places
    refine ⟨bank ++ ':' :: offset, rest, ⟨blank, rfl, isBlank, stands⟩, bank, offset,
      ⟨':', rfl, rfl, ?_⟩, address.bank.toNat, ?_, address.offset.toNat, ?_, _, named, ?_,
      String.ofList_toList⟩
    · intro c member
      rw [beq_eq_false_iff_ne]
      exact (plain_of_signed isRadix_sixteen bankSigned member).2
    · exact (read?_eq_some_iff isRadix_sixteen).mpr ⟨address.bank.toNat_lt, bankSigned⟩
    · exact (read?_eq_some_iff isRadix_sixteen).mpr ⟨address.offset.toNat_lt, offsetSigned⟩
    · rw [UInt8.ofNat_toNat, UInt16.ofNat_toNat]

/-! ## What the lines give -/

/-- The names that lines give, in their order; at the first line the section is read or not. -/
def symbolsIn (reading : Bool) : List (List Char) → List (Address × String)
  | [] => []
  | line :: rest =>
      match Line.ofTrimmed (trim line) with
      | .ignored => symbolsIn reading rest
      | .header labels => symbolsIn labels rest
      | .other text =>
          (if reading then Option.toList <| entry? text else []) ++ symbolsIn reading rest

theorem table_foldl_line (reader : Reader) (parts : List (List Char)) :
    (parts.foldl Reader.line reader).table = (symbolsIn reader.reading parts).foldl
      (fun table (address, name) => table.insert address name) reader.table := by
  induction parts generalizing reader with
  | nil => rfl
  | cons line rest ih =>
      rw [List.foldl_cons, ih, Reader.line, symbolsIn]
      cases Line.ofTrimmed (trim line) with
      | ignored => rfl
      | header labels => rfl
      | other text =>
          dsimp only
          cases reading : reader.reading
          · simp only [Bool.false_eq_true, if_false, reading, List.nil_append]
          · simp only [if_true, List.foldl_append]
            cases entry? text with
            | none => rw [reading]; rfl
            | some symbol => rfl

theorem ofText_eq (text : String) :
    ofText text = ofList (symbolsIn false (lines text.toList)) :=
  table_foldl_line _ _

/-- Lines count by what is left of them after trimming. -/
theorem symbolsIn_congr (same : parts.map trim = others.map trim) (reading : Bool) :
    symbolsIn reading parts = symbolsIn reading others := by
  induction parts generalizing others reading with
  | nil => rw [List.map_eq_nil_iff.mp same.symm]
  | cons line rest ih =>
      cases others with
      | nil => cases same
      | cons other others =>
          obtain ⟨first, later⟩ := List.cons.inj same
          rw [symbolsIn, symbolsIn, first]
          simp only [ih later]

/-- A line that opens a section. -/
def IsHeader (line : List Char) : Prop :=
  ∃ rest, trim line = '[' :: rest

/-- No state survives a header. -/
theorem symbolsIn_append_header (header : IsHeader line) (reading after : Bool)
    (parts others : List (List Char)) :
    symbolsIn reading (parts ++ line :: others) =
      symbolsIn reading parts ++ symbolsIn after (line :: others) := by
  obtain ⟨rest, trimmed⟩ := header
  induction parts generalizing reading with
  | nil => simp only [List.nil_append, symbolsIn, trimmed, Line.ofTrimmed]
  | cons earlier parts ih =>
      rw [List.cons_append, symbolsIn, symbolsIn]
      cases Line.ofTrimmed (trim earlier) with
      | ignored => exact ih reading
      | header labels => exact ih labels
      | other text => simp only [ih, List.append_assoc]

/-! ## Lines that give nothing -/

/-- The lines that are left without blank lines, comments, lines of sections that are not read, and
malformed lines of sections that are. -/
def essential (reading : Bool) : List (List Char) → List (List Char)
  | [] => []
  | line :: rest =>
      match Line.ofTrimmed (trim line) with
      | .ignored => essential reading rest
      | .header labels => line :: essential labels rest
      | .other text =>
          if reading && (Option.isSome <| entry? text) then line :: essential reading rest
          else essential reading rest

/-- The text without the lines that give nothing. -/
def condensed (text : String) : String :=
  String.ofList (['\n'].intercalate (essential false (lines text.toList)))

theorem symbolsIn_essential (reading : Bool) (parts : List (List Char)) :
    symbolsIn reading (essential reading parts) = symbolsIn reading parts := by
  induction parts generalizing reading with
  | nil => rfl
  | cons line rest ih =>
      rw [essential, symbolsIn]
      cases kind : Line.ofTrimmed (trim line) with
      | ignored => exact ih reading
      | header labels => simp only [symbolsIn, kind, ih]
      | other text =>
          dsimp only
          split
          · simp only [symbolsIn, kind, ih]
          · next dropped =>
              rw [ih]
              cases reading
              · rfl
              · rw [Bool.true_and, Option.not_isSome_iff_eq_none] at dropped
                rw [dropped]
                rfl

theorem essential_sublist (reading : Bool) (parts : List (List Char)) :
    (essential reading parts).Sublist parts := by
  induction parts generalizing reading with
  | nil => exact .slnil
  | cons line rest ih =>
      rw [essential]
      cases Line.ofTrimmed (trim line) with
      | ignored => exact (ih reading).cons _
      | header labels => exact (ih labels).cons_cons _
      | other text =>
          dsimp only
          split
          · exact (ih reading).cons_cons _
          · exact (ih reading).cons _

/-- Joined lines give what the lines give. -/
theorem symbolsIn_lines_intercalate (unbroken : ∀ line ∈ parts, '\n' ∉ line) (reading : Bool) :
    symbolsIn reading (lines (['\n'].intercalate parts)) = symbolsIn reading parts := by
  cases parts with
  | nil => rfl
  | cons line rest => rw [lines_intercalate unbroken (List.cons_ne_nil _ _)]

theorem ofText_condensed (text : String) : ofText (condensed text) = ofText text := by
  rw [ofText_eq, ofText_eq, condensed, String.toList_ofList, symbolsIn_lines_intercalate,
    symbolsIn_essential]
  intro line kept
  exact newline_not_mem_of_mem_lines ((essential_sublist _ _).subset kept)

/-- Within a section that is read, too, a line that is no entry is passed over. -/
theorem Reader.line_of_malformed (reader : Reader) (plain : ¬IsHeader line)
    (malformed : entry? (trim line) = none) : reader.line line = reader := by
  rw [Reader.line]
  generalize trimmed : trim line = text at malformed
  unfold Line.ofTrimmed
  split
  · rfl
  · next kind =>
      split at kind
      · cases kind
      · cases kind
      · exact absurd ⟨_, trimmed⟩ plain
      · cases kind
  · next kind =>
      split at kind <;> cases kind
      rw [malformed, ite_self]

/-! ## Texts joined at a header -/

/-- The ends of lines. -/
def IsNewline (text : List Char) : Prop :=
  text = ['\n'] ∨ text = ['\r', '\n']

theorem trim_append_return (line : List Char) : trim (line ++ ['\r']) = trim line := by
  have nothingBefore : ∀ c ∈ [], isBlank c = true := fun _ member => absurd member List.not_mem_nil
  have returnBlank : ∀ c ∈ ['\r'], isBlank c = true := List.forall_mem_singleton.mpr rfl
  exact trim_surrounded nothingBefore returnBlank line

/-- A line feed, with or without a carriage return, parts the lines before it from those after. -/
theorem symbolsIn_lines_append {newline : List Char} (ends : IsNewline newline) (reading : Bool)
    (text rest : List Char) :
    symbolsIn reading (lines (text ++ newline ++ rest)) =
      symbolsIn reading (lines text ++ lines rest) := by
  rcases ends with rfl | rfl
  · rw [List.append_assoc, List.singleton_append, lines_append_newline]
  · have unbroken : '\n' ∉ ['\r'] := by
      decide
    obtain ⟨earlier, last, parts, returned⟩ := exists_lines_append text unbroken
    have regrouped : text ++ ['\r', '\n'] ++ rest = text ++ ['\r'] ++ '\n' :: rest := by
      simp only [List.append_assoc, List.cons_append, List.nil_append]
    rw [regrouped, lines_append_newline, returned, parts]
    apply symbolsIn_congr
    simp only [List.map_append, List.map_singleton, trim_append_return]

/-- The first line opens a section. -/
def OpensSection (text : String) : Prop :=
  ∃ line rest, lines text.toList = line :: rest ∧ IsHeader line

/-- Of texts joined before a header, the second overrides the first. -/
theorem get?_ofText_append {first second newline : String} (ends : IsNewline newline.toList)
    (opens : OpensSection second) (a : Address) :
    (ofText (first ++ newline ++ second)).get? a =
      ((ofText second).get? a).or ((ofText first).get? a) := by
  obtain ⟨line, rest, parts, header⟩ := opens
  rw [ofText_eq, ofText_eq, ofText_eq, String.toList_append, String.toList_append,
    symbolsIn_lines_append ends, parts, symbolsIn_append_header header false false,
    get?_ofList_append]

/-! ## Lines written for a list of names -/

/-- `BB:OOOO name`: two digits of the bank and four of the offset, letters in either case. -/
def Declares (symbol : Address × String) (line : List Char) : Prop :=
  ∃ bank offset, Spells 16 symbol.1.bank.toNat bank ∧ bank.length = 2 ∧
    Spells 16 symbol.1.offset.toNat offset ∧ offset.length = 4 ∧
    line = bank ++ ':' :: offset ++ ' ' :: symbol.2.toList

/-- A name without blanks. -/
def IsWord (name : String) : Prop :=
  name ≠ "" ∧ ∀ c ∈ name.toList, isBlank c = false

instance decidableIsWord (name : String) : Decidable (IsWord name) :=
  decidable_of_iff (name ≠ "" ∧ name.toList.all (fun c => !isBlank c) = true) (by simp [IsWord])

/-- The text consists of the lines, each with an end except perhaps the last. -/
inductive Written : List (List Char) → List Char → Prop
  | nothing : Written [] []
  | last (line : List Char) : Written [line] line
  | ended {parts : List (List Char)} {text newline : List Char} (line : List Char)
      (ends : IsNewline newline) (rest : Written parts text) :
      Written (line :: parts) (line ++ newline ++ text)

theorem Declares.entry? {symbol : Address × String} (declares : Declares symbol line)
    (word : IsWord symbol.2) : entry? line = some symbol := by
  obtain ⟨address, name⟩ := symbol
  obtain ⟨bank, offset, bankSpells, _, offsetSpells, _, rfl⟩ := declares
  refine entry?_eq_some_iff.mpr ⟨bank ++ ':' :: offset, ' ', name.toList, rfl, by decide, ?_, ?_⟩
  · exact ⟨bank, offset, rfl, .inl bankSpells, .inl offsetSpells⟩
  · refine firstWord?_of_no_blank ?_ word.2
    rw [Ne, String.toList_eq_nil_iff]
    exact word.1

theorem Declares.ofTrimmed {symbol : Address × String} (declares : Declares symbol line)
    (word : IsWord symbol.2) : Line.ofTrimmed (trim line) = .other line := by
  obtain ⟨bank, offset, spells, _, _, _, rfl⟩ := declares
  obtain ⟨first, more, rfl⟩ :=
    List.exists_cons_of_ne_nil ((spells_iff isRadix_sixteen).mp spells).1
  obtain ⟨before, last, named⟩ :=
    (List.eq_nil_or_concat' symbol.2.toList).resolve_left (mt String.toList_eq_nil_iff.mp word.1)
  have firstStands := (plain_of_spells isRadix_sixteen spells List.mem_cons_self).1
  have lastStands := word.2 last (by rw [named]; simp)
  have regrouped : first :: more ++ ':' :: offset ++ ' ' :: symbol.2.toList =
      first :: (more ++ ':' :: offset ++ ' ' :: before) ++ [last] := by
    simp only [named, List.append_assoc, List.cons_append]
  have trimmed : trim (first :: (more ++ ':' :: offset ++ ' ' :: before) ++ [last]) = _ :=
    trim_eq_self rfl List.getLast?_concat firstStands lastStands
  rw [← regrouped] at trimmed
  obtain ⟨value, digit⟩ := digit?_of_spells isRadix_sixteen spells List.mem_cons_self
  rw [trimmed, List.cons_append, List.cons_append]
  unfold Line.ofTrimmed
  split
  · next none => cases none
  · next comment =>
      obtain ⟨rfl, _⟩ := List.cons.inj comment
      cases digit
  · next bracket =>
      obtain ⟨rfl, _⟩ := List.cons.inj bracket
      cases digit
  · rfl

theorem Declares.unbroken {symbol : Address × String} (declares : Declares symbol line)
    (word : IsWord symbol.2) : '\n' ∉ line := by
  obtain ⟨bank, offset, bankSpells, _, offsetSpells, _, rfl⟩ := declares
  intro member
  simp only [List.mem_append, List.mem_cons] at member
  rcases member with ((inBank | colon | inOffset) | blank | inName)
  · exact absurd (plain_of_spells isRadix_sixteen bankSpells inBank).1 (by decide)
  · cases colon
  · exact absurd (plain_of_spells isRadix_sixteen offsetSpells inOffset).1 (by decide)
  · cases blank
  · exact absurd (word.2 _ inName) (by decide)

theorem symbolsIn_of_declares {symbols : List (Address × String)}
    (words : ∀ symbol ∈ symbols, IsWord symbol.2)
    (declared : List.Forall₂ Declares symbols parts) : symbolsIn true parts = symbols := by
  induction declared with
  | nil => rfl
  | @cons symbol line symbols parts declares _ ih =>
      obtain ⟨word, others⟩ := List.forall_mem_cons.mp words
      rw [symbolsIn, declares.ofTrimmed word, ih others]
      simp only [if_true, declares.entry? word, Option.toList_some, List.singleton_append]

theorem Written.symbolsIn (written : Written parts text) (unbroken : ∀ line ∈ parts, '\n' ∉ line)
    (reading : Bool) : symbolsIn reading (lines text) = SymbolTable.symbolsIn reading parts := by
  induction written generalizing reading with
  | nothing => rfl
  | last line => rw [lines_of_no_newline (unbroken line List.mem_cons_self)]
  | ended line ends _ ih =>
      obtain ⟨whole, others⟩ := List.forall_mem_cons.mp unbroken
      rw [symbolsIn_lines_append ends, lines_of_no_newline whole, List.singleton_append,
        SymbolTable.symbolsIn, SymbolTable.symbolsIn]
      simp only [ih others]

theorem unbroken_of_declares {symbols : List (Address × String)}
    (words : ∀ symbol ∈ symbols, IsWord symbol.2)
    (declared : List.Forall₂ Declares symbols parts) : ∀ line ∈ parts, '\n' ∉ line := by
  induction declared with
  | nil => exact fun _ member => absurd member List.not_mem_nil
  | @cons symbol line symbols parts declares _ ih =>
      obtain ⟨word, others⟩ := List.forall_mem_cons.mp words
      exact List.forall_mem_cons.mpr ⟨declares.unbroken word, ih others⟩

/-- A labels section with a line for each name gives the names in their order. -/
theorem ofText_of_written {symbols : List (Address × String)} {text : String}
    (words : ∀ symbol ∈ symbols, IsWord symbol.2)
    (declared : List.Forall₂ Declares symbols parts)
    (written : Written ("[labels]".toList :: parts) text.toList) :
    ofText text = ofList symbols := by
  have unbroken : ∀ line ∈ "[labels]".toList :: parts, '\n' ∉ line := by
    intro line member
    rcases List.mem_cons.mp member with rfl | later
    · decide
    · exact unbroken_of_declares words declared line later
  have header : Line.ofTrimmed (trim "[labels]".toList) = .header true := by
    decide
  rw [ofText_eq, written.symbolsIn unbroken, SymbolTable.symbolsIn, header]
  exact congrArg ofList (symbolsIn_of_declares words declared)

/-! ## The main result -/

/--
A labels section with a line for each name is read as the table of these names, the last one given
for an address winning, whatever the case of the digits and the ends of the lines. Of two texts
joined before a header, the names of the second override those of the first. And blank lines,
comments, malformed lines of sections that are read and all lines of other sections but headers can
be left out.
-/
theorem symbol_files_are_read_by_section :
    (∀ (symbols : List (Address × String)) (parts : List (List Char)) (text : String),
      (∀ symbol ∈ symbols, IsWord symbol.2) → List.Forall₂ Declares symbols parts →
      Written ("[labels]".toList :: parts) text.toList →
      ofText text = ofList symbols ∧ ∀ a, (ofText text).get? a =
        (symbols.reverse.find? fun symbol => symbol.1 == a).map Prod.snd) ∧
    (∀ first newline second : String, IsNewline newline.toList → OpensSection second →
      ∀ a, (ofText (first ++ newline ++ second)).get? a =
        ((ofText second).get? a).or ((ofText first).get? a)) ∧
    ∀ text : String, ofText (condensed text) = ofText text := by
  refine ⟨?written, ?joined, ofText_condensed⟩
  case written =>
    intro symbols parts text words declared written
    have read := ofText_of_written words declared written
    refine ⟨read, fun a => ?_⟩
    rw [read, get?_ofList]
  case joined =>
    intro first newline second ends opens a
    exact get?_ofText_append ends opens a

/-- An address that is named twice, in different cases and with both ends of lines. -/
def renamedText : String :=
  "[labels]\r\n0a:8F00 Old\n02:c0C3 Main;\r\n0A:8f00 New"

theorem renamedText_gives_the_last_names :
    (ofText renamedText).get? ⟨0x0A, 0x8F00⟩ = some "New" ∧
    (ofText renamedText).get? ⟨0x02, 0xC0C3⟩ = some "Main;" ∧
    (ofText (renamedText ++ "\n" ++ " [labels]\n\n0a:8f00 Newer")).get? ⟨0x0A, 0x8F00⟩ =
      some "Newer" := by
  obtain ⟨written, joined, _⟩ := symbol_files_are_read_by_section
  obtain ⟨_, named⟩ := written
    [(⟨0x0A, 0x8F00⟩, "Old"), (⟨0x02, 0xC0C3⟩, "Main;"), (⟨0x0A, 0x8F00⟩, "New")]
    ["0a:8F00 Old".toList, "02:c0C3 Main;".toList, "0A:8f00 New".toList] renamedText
    (by decide)
    (.cons ⟨['0', 'a'], ['8', 'F', '0', '0'], ⟨1, by decide⟩, rfl, ⟨0, by decide⟩, rfl, by decide⟩
      (.cons ⟨['0', '2'], ['c', '0', 'C', '3'], ⟨1, by decide⟩, rfl, ⟨0, by decide⟩, rfl, by decide⟩
        (.cons ⟨['0', 'A'], ['8', 'f', '0', '0'], ⟨1, by decide⟩, rfl, ⟨0, by decide⟩, rfl,
          by decide⟩ .nil)))
    (.ended _ (.inr rfl) (.ended _ (.inl rfl) (.ended _ (.inr rfl) (.last _))))
  refine ⟨?_, ?_, ?_⟩
  · rw [named]
    decide
  · rw [named]
    decide
  · rw [joined renamedText "\n" _ (.inl (by decide)) ⟨_, _, rfl, _, rfl⟩, named]
    decide +kernel

end WidthTrace.SymbolTable
