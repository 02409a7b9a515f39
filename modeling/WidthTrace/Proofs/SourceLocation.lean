import WidthTrace.Proofs.Text.Blank
import WidthTrace.Proofs.Text.Numeral
import WidthTrace.SourceLocation

/-!
# Source locations are read as they are written

A location is read at the last colon of a text. The line that is written after a file consists
of digits, so the last colon of a written location is the one behind its file, whatever colons
the file contains. What else is read as the same location differs in its line only: there may
be blanks around the number, zeros before it, and a plus sign.
-/

namespace WidthTrace.SourceLocation

open Text Text.Numeral

variable {text : String} {location : SourceLocation}

theorem splitLast?_colon {text before after : List Char} :
    splitLast? (· == ':') text = some (before, after) ↔
      text = before ++ ':' :: after ∧ ':' ∉ after := by
  simp only [splitLast?_eq_some_iff, beq_iff_eq, beq_eq_false_iff_ne]
  constructor
  · rintro ⟨_, whole, rfl, unmarked⟩
    exact ⟨whole, fun member => unmarked _ member rfl⟩
  · rintro ⟨whole, unmarked⟩
    exact ⟨':', whole, rfl, fun c member same => unmarked (same ▸ member)⟩

/-- A text is read in parts: the file, and the line with its value. -/
theorem ofText?_eq_some_iff_parts :
    ofText? text = some location ↔ ∃ file line n,
      splitLast? (· == ':') text.toList = some (file, line) ∧ file ≠ [] ∧
        read? 10 0x100000000 (trim line) = some n ∧
        ⟨String.ofList file, UInt32.ofNat n⟩ = location := by
  simp only [ofText?, bind, Option.bind_eq_some_iff, Prod.exists, List.isEmpty_iff,
    Option.ite_none_left_eq_some, pure, Option.some.injEq, exists_and_left]

/-- What is read as a location is its file, a colon, and its line behind the last colon. -/
theorem ofText?_eq_some_iff :
    ofText? text = some location ↔ location.file ≠ "" ∧ ∃ line,
      text.toList = location.file.toList ++ ':' :: line ∧ ':' ∉ line ∧
        Signed 10 location.line.toNat (trim line) := by
  rw [ofText?_eq_some_iff_parts]
  simp only [splitLast?_colon, read?_eq_some_iff isRadix_ten]
  constructor
  · rintro ⟨file, line, n, ⟨whole, noColon⟩, named, ⟨below, signed⟩, rfl⟩
    refine ⟨?_, line, ?_, noColon, ?_⟩
    · rwa [ne_eq, ← String.toList_eq_nil_iff, String.toList_ofList]
    · rw [whole, String.toList_ofList]
    · rwa [UInt32.toNat_ofNat_of_lt' below]
  · rintro ⟨named, line, whole, noColon, signed⟩
    refine ⟨location.file.toList, line, location.line.toNat, ⟨whole, noColon⟩, ?_,
      ⟨location.line.toNat_lt, signed⟩, ?_⟩
    · rwa [ne_eq, String.toList_eq_nil_iff]
    · rw [String.ofList_toList, UInt32.ofNat_toNat]

theorem toList_text (location : SourceLocation) :
    location.text.toList = location.file.toList ++ ':' :: Nat.toDigits 10 location.line.toNat := by
  simp [text, toString, Nat.repr]

/-- A written location with a file is read. -/
theorem ofText?_text (named : location.file ≠ "") : ofText? location.text = some location := by
  have spells : Spells 10 location.line.toNat (Nat.toDigits 10 location.line.toNat) :=
    spells_toDigits isRadix_ten _
  have plain {c : Char} (member : c ∈ Nat.toDigits 10 location.line.toNat) :
      isBlank c = false ∧ c ≠ ':' := plain_of_spells isRadix_ten spells member
  refine ofText?_eq_some_iff.mpr ⟨named, _, toList_text location, ?_, ?_⟩
  · intro member
    exact (plain member).2 rfl
  · rw [trim_of_no_blank fun c member => (plain member).1]
    exact .inl spells

/--
A location that has a file is read back from its text, whatever the file contains. Whatever
text is read as a location: the location has a file, which is the part of the text before its
last colon, and is read back from its own text.
-/
theorem written_locations_are_read_back (text : String) (location : SourceLocation) :
    (location.file ≠ "" → ofText? location.text = some location) ∧
    (ofText? text = some location →
      ofText? location.text = some location ∧ location.file ≠ "" ∧
        ∃ line, text = location.file ++ ":" ++ line ∧ ':' ∉ line.toList) := by
  refine ⟨ofText?_text, ?_⟩
  intro read
  obtain ⟨named, line, whole, noColon, _⟩ := ofText?_eq_some_iff.mp read
  refine ⟨ofText?_text named, named, String.ofList line, ?_, ?_⟩
  · rw [← String.toList_inj, whole]
    simp
  · rwa [String.toList_ofList]

/-- Neither the drive letter nor the digits before the last colon belong to the line, which is read
without its sign and zeros. -/
theorem location_on_drive_is_read :
    let location : SourceLocation := ⟨"C:/work/part 2:17", 42⟩
    ofText? "C:/work/part 2:17: +042 " = some location ∧
    location.text = "C:/work/part 2:17:42" ∧
    ofText? location.text = some location ∧ location.file ≠ "" := by
  intro location
  have read : ofText? "C:/work/part 2:17: +042 " = some location := by decide +kernel
  obtain ⟨back, named, _⟩ := (written_locations_are_read_back _ location).2 read
  exact ⟨read, by decide +kernel, (written_locations_are_read_back "" location).1 named, named⟩

end WidthTrace.SourceLocation
