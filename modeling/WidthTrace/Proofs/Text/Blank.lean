import Mathlib.Data.List.DropRight
import WidthTrace.Text.Blank

/-!
# Laws of words and lines

Blanks around a text do not survive trimming, and a text that neither begins nor ends with
one does. A text is split at the first or at the last mark in it. Cutting a text into lines is
undone by joining them, and the lines of a text that goes on after a line feed are those before
it and those after it.
-/

namespace WidthTrace.Text

variable {text : List Char}

/-! ## Trimming -/

theorem trimEnd_eq (text : List Char) : trimEnd text = text.rdropWhile isBlank := rfl

theorem rdropWhile_append_of_pos {marked : Char → Bool} {after : List Char}
    (all : ∀ c ∈ after, marked c = true) (text : List Char) :
    (text ++ after).rdropWhile marked = text.rdropWhile marked := by
  rw [List.rdropWhile, List.reverse_append, List.dropWhile_append_of_pos, List.rdropWhile]
  intro c member
  exact all c (List.mem_reverse.mp member)

/-- Blanks around a text make no difference to the trimmed text. -/
theorem trim_surrounded {before after : List Char} (blankBefore : ∀ c ∈ before, isBlank c = true)
    (blankAfter : ∀ c ∈ after, isBlank c = true) (text : List Char) :
    trim (before ++ text ++ after) = trim text := by
  rw [trim, trim, trimEnd_eq, trimEnd_eq, List.append_assoc,
    List.dropWhile_append_of_pos blankBefore, List.dropWhile_append]
  split
  · next empty =>
      rw [List.isEmpty_iff.mp empty, List.dropWhile_eq_nil_iff.mpr blankAfter]
  · exact rdropWhile_append_of_pos blankAfter _

theorem mem_dropWhile {marked : Char → Bool} {c : Char} (member : c ∈ text)
    (unmarked : marked c = false) : c ∈ text.dropWhile marked := by
  rw [← List.takeWhile_append_dropWhile (p := marked) (l := text), List.mem_append] at member
  refine member.resolve_left fun dropped => ?_
  rw [List.mem_takeWhile_imp dropped] at unmarked
  cases unmarked

/-- Trimming loses blanks only. -/
theorem mem_trim {c : Char} (member : c ∈ text) (stands : isBlank c = false) : c ∈ trim text := by
  rw [trim, trimEnd, List.mem_reverse]
  apply mem_dropWhile _ stands
  rw [List.mem_reverse]
  exact mem_dropWhile member stands

theorem trim_eq_self {first last : Char} (starts : text.head? = some first)
    (ends : text.getLast? = some last) (firstStands : isBlank first = false)
    (lastStands : isBlank last = false) : trim text = text := by
  have kept : text.dropWhile isBlank = text := by
    obtain ⟨rest, rfl⟩ := List.head?_eq_some_iff.mp starts
    exact List.dropWhile_cons_of_neg (by rw [firstStands]; exact Bool.false_ne_true)
  rw [trim, kept, trimEnd_eq, List.rdropWhile_eq_self_iff]
  intro some
  rw [List.getLast?_eq_some_getLast some, Option.some.injEq] at ends
  rw [ends, lastStands]
  exact Bool.false_ne_true

/-- A text without blanks is trimmed. -/
theorem trim_of_no_blank (stands : ∀ c ∈ text, isBlank c = false) : trim text = text := by
  cases text with
  | nil => rfl
  | cons first rest =>
      exact trim_eq_self rfl (List.getLast?_eq_some_getLast (List.cons_ne_nil first rest))
        (stands _ List.mem_cons_self) (stands _ (List.getLast_mem _))

/-! ## Words -/

theorem firstWord?_of_no_blank (some : text ≠ []) (stands : ∀ c ∈ text, isBlank c = false) :
    firstWord? text = .some text := by
  have wholeWord : text.takeWhile (fun c => !isBlank c) = text := by
    rw [List.takeWhile_eq_self_iff]
    intro c member
    rw [stands c member, Bool.not_false]
  cases text with
  | nil => exact absurd rfl some
  | cons first rest =>
      have kept : (first :: rest).dropWhile isBlank = first :: rest :=
        List.dropWhile_cons_of_neg (by
          rw [stands first List.mem_cons_self]
          exact Bool.false_ne_true)
      rw [firstWord?, kept, wholeWord]

/-- A text is split at the first mark in it. -/
theorem splitFirst?_eq_some_iff {mark : Char → Bool} {before after : List Char} :
    splitFirst? mark text = some (before, after) ↔
      ∃ c, text = before ++ c :: after ∧ mark c = true ∧ ∀ d ∈ before, mark d = false := by
  constructor
  · unfold splitFirst?
    split
    · intro none
      cases none
    · next c rest remaining =>
        intro halves
        obtain ⟨rfl, rfl⟩ := Prod.mk.inj (Option.some.inj halves)
        refine ⟨c, ?_, ?_, ?_⟩
        · rw [← remaining, List.takeWhile_append_dropWhile]
        · have stopped := List.head?_dropWhile_not (fun c => !mark c) text
          rw [remaining] at stopped
          simpa using stopped
        · intro d member
          simpa using List.mem_takeWhile_imp member
  · rintro ⟨c, rfl, marked, unmarked⟩
    have passed : ∀ d ∈ before, (!mark d) = true := by
      intro d member
      rw [unmarked d member, Bool.not_false]
    have stops : ¬(!mark c) = true := by
      rw [marked, Bool.not_true]
      exact Bool.false_ne_true
    have remaining : (before ++ c :: after).dropWhile (fun d => !mark d) = c :: after := by
      rw [List.dropWhile_append_of_pos passed, List.dropWhile_cons, if_neg stops]
    have taken : (before ++ c :: after).takeWhile (fun d => !mark d) = before := by
      rw [List.takeWhile_append_of_pos passed, List.takeWhile_cons, if_neg stops, List.append_nil]
    rw [splitFirst?, remaining, taken]

/-- A text is split at the last mark in it. -/
theorem splitLast?_eq_some_iff {mark : Char → Bool} {before after : List Char} :
    splitLast? mark text = some (before, after) ↔
      ∃ c, text = before ++ c :: after ∧ mark c = true ∧ ∀ d ∈ after, mark d = false := by
  have mirrored : splitLast? mark text = some (before, after) ↔
      splitFirst? mark text.reverse = some (after.reverse, before.reverse) := by
    rw [splitLast?, Option.map_eq_some_iff]
    constructor
    · rintro ⟨⟨first, rest⟩, halves, same⟩
      cases same
      rw [halves, List.reverse_reverse, List.reverse_reverse]
    · intro halves
      exact ⟨_, halves, by simp⟩
  rw [mirrored, splitFirst?_eq_some_iff]
  refine exists_congr fun c => and_congr ?_ (and_congr_right fun _ => ?_)
  · rw [← List.reverse_inj]
    simp
  · simp only [List.mem_reverse]

/-! ## Lines -/

theorem lines_cons (c : Char) (text : List Char) :
    lines (c :: text) =
      if c = '\n' then [] :: lines text else (lines text).modifyHead (c :: ·) := by
  rw [lines, List.foldr_cons]
  split_ifs <;> rfl

theorem lines_eq_splitOn (text : List Char) : lines text = text.splitOn '\n' := by
  induction text with
  | nil => rfl
  | cons c text ih =>
      rw [lines_cons, List.splitOn_cons_eq_if_modifyHead, ih]
      simp only [beq_iff_eq]

theorem lines_append_newline (text rest : List Char) :
    lines (text ++ '\n' :: rest) = lines text ++ lines rest := by
  rw [lines_eq_splitOn, lines_eq_splitOn, lines_eq_splitOn, List.splitOn_append_cons_self]

theorem lines_of_no_newline (unbroken : '\n' ∉ text) : lines text = [text] := by
  rw [lines_eq_splitOn, List.splitOn_eq_singleton unbroken]

theorem lines_ne_nil (text : List Char) : lines text ≠ [] := by
  rw [lines_eq_splitOn]
  exact List.splitOn_ne_nil _ _

theorem lines_intercalate {parts : List (List Char)} (unbroken : ∀ line ∈ parts, '\n' ∉ line)
    (some : parts ≠ []) : lines (['\n'].intercalate parts) = parts := by
  rw [lines_eq_splitOn, List.splitOn_intercalate '\n' unbroken some]

theorem newline_not_mem_of_mem_lines {line : List Char} (member : line ∈ lines text) :
    '\n' ∉ line := by
  induction text generalizing line with
  | nil =>
      obtain rfl := List.mem_singleton.mp member
      exact List.not_mem_nil
  | cons c text ih =>
      rw [lines_cons] at member
      split at member
      · rcases List.mem_cons.mp member with rfl | later
        · exact List.not_mem_nil
        · exact ih later
      · next other =>
          cases split : lines text with
          | nil => exact absurd split (lines_ne_nil text)
          | cons first rest =>
              rw [split] at member
              rcases List.mem_cons.mp member with rfl | later
              · rw [List.mem_cons, not_or]
                exact ⟨Ne.symm other, ih (by rw [split]; exact List.mem_cons_self)⟩
              · exact ih (by rw [split]; exact List.mem_cons_of_mem _ later)

/-- What is added after a text is added to its last line. -/
theorem exists_lines_append (text : List Char) {added : List Char} (unbroken : '\n' ∉ added) :
    ∃ earlier last, lines text = earlier ++ [last] ∧
      lines (text ++ added) = earlier ++ [last ++ added] := by
  obtain ⟨earlier, last, parts⟩ :=
    (List.eq_nil_or_concat' (lines text)).resolve_left (lines_ne_nil text)
  have whole : ['\n'].intercalate (earlier ++ [last]) = text := by
    rw [← parts, lines_eq_splitOn, List.intercalate_splitOn]
  have grown (earlier : List (List Char)) : ['\n'].intercalate (earlier ++ [last ++ added]) =
      ['\n'].intercalate (earlier ++ [last]) ++ added := by
    induction earlier with
    | nil => simp only [List.nil_append, List.intercalate_singleton]
    | cons line earlier ih =>
        rw [List.cons_append, List.cons_append, List.intercalate_cons_of_ne_nil (by simp),
          List.intercalate_cons_of_ne_nil (by simp), ih, List.append_assoc, List.append_assoc,
          List.append_assoc]
  refine ⟨earlier, last, parts, ?_⟩
  rw [← whole, ← grown, lines_intercalate _ (by simp)]
  intro line member
  rcases List.mem_append.mp member with before | single
  · exact newline_not_mem_of_mem_lines (parts ▸ List.mem_append_left _ before)
  · rw [List.mem_singleton.mp single, List.mem_append, not_or]
    exact ⟨newline_not_mem_of_mem_lines (parts ▸ List.mem_append_right _ List.mem_cons_self),
      unbroken⟩

end WidthTrace.Text
