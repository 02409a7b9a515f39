import Mathlib.Data.List.Induction
import WidthTrace.Text.Blank
import WidthTrace.Text.Numeral

/-!
# Reading what is written

A run of digits spells a number if it consists of the digits of that number, letters in
either case, after any number of zeros. Reading accepts the runs that spell a number below
the bound, and the same runs behind one plus sign, and nothing else.
-/

namespace WidthTrace.Text.Numeral

/-- There are digits for every value below the radix. -/
structure IsRadix (radix : Nat) : Prop where
  several : 1 < radix
  few : radix ≤ 16

theorem IsRadix.pos {radix : Nat} (isRadix : IsRadix radix) : 0 < radix :=
  Nat.zero_lt_of_lt isRadix.several

theorem isRadix_ten : IsRadix 10 := ⟨by decide, by decide⟩

theorem isRadix_sixteen : IsRadix 16 := ⟨by decide, by decide⟩

/-! ## Digits -/

theorem toNat_lt_of_digit? {radix value : Nat} {c : Char} (read : digit? radix c = some value) :
    c.toNat < 128 := by
  have bound (last : Char) (below : c ≤ last) (small : last.toNat < 128) : c.toNat < 128 :=
    Nat.lt_of_le_of_lt (UInt32.le_iff_toNat_le.mp below) small
  simp only [digit?, Option.filter_eq_some_iff] at read
  have within := read.1
  split at within
  · next range => exact bound '9' range.2 (by decide)
  · split at within
    · next range => exact bound 'f' range.2 (by decide)
    · split at within
      · next range => exact bound 'F' range.2 (by decide)
      · cases within

/-- The digits of every radix are digits of radix sixteen. -/
theorem digit?_eq_filter {radix : Nat} (few : radix ≤ 16) (c : Char) :
    digit? radix c = (digit? 16 c).filter (· < radix) := by
  rw [digit?, digit?, Option.filter_filter]
  congr 1
  funext value
  rw [Bool.eq_iff_iff, Bool.and_eq_true, decide_eq_true_eq, decide_eq_true_eq]
  omega

theorem of_digit?_sixteen {value : Nat} {c : Char} (read : digit? 16 c = some value) :
    Nat.digitChar value = c.toLower := by
  have table : ∀ code < 128, ∀ value < 16, digit? 16 (Char.ofNat code) = some value →
      Nat.digitChar value = (Char.ofNat code).toLower := by
    decide +kernel
  have small : value < 16 := by
    rw [digit?_eq_filter (Nat.le_refl 16), Option.filter_eq_some_iff] at read
    exact of_decide_eq_true read.2
  have known := table c.toNat (toNat_lt_of_digit? read) value small
  rw [Char.ofNat_toNat] at known
  exact known read

theorem digit?_digitChar {radix value : Nat} (few : radix ≤ 16) (small : value < radix) :
    digit? radix (Nat.digitChar value) = some value := by
  have table : ∀ value < 16, digit? 16 (Nat.digitChar value) = some value := by
    decide
  rw [digit?_eq_filter few, table value (Nat.lt_of_lt_of_le small few), Option.filter_some,
    if_pos (decide_eq_true small)]

theorem digit?_toLower {radix : Nat} (few : radix ≤ 16) (c : Char) :
    digit? radix c.toLower = digit? radix c := by
  have table : ∀ code < 128, digit? 16 (Char.ofNat code).toLower = digit? 16 (Char.ofNat code) := by
    decide +kernel
  rw [digit?_eq_filter few, digit?_eq_filter few c]
  congr 1
  by_cases small : c.toNat < 128
  · have known := table c.toNat small
    rwa [Char.ofNat_toNat] at known
  · have kept : c.toLower = c := by
      refine dif_neg ?_
      rintro ⟨_, upper⟩
      exact small (Nat.lt_of_le_of_lt (UInt32.le_iff_toNat_le.mp upper) (by decide))
    rw [kept]

section

variable {radix : Nat} (few : radix ≤ 16)
include few

theorem lt_of_digit? {value : Nat} {c : Char} (read : digit? radix c = some value) :
    value < radix := by
  rw [digit?_eq_filter few, Option.filter_eq_some_iff] at read
  exact of_decide_eq_true read.2

theorem digit?_sixteen {value : Nat} {c : Char} (read : digit? radix c = some value) :
    digit? 16 c = some value := by
  rw [digit?_eq_filter few, Option.filter_eq_some_iff] at read
  exact read.1

theorem digitChar_of_digit? {value : Nat} {c : Char} (read : digit? radix c = some value) :
    Nat.digitChar value = c.toLower :=
  of_digit?_sixteen (digit?_sixteen few read)

/-- A digit is neither a blank nor a colon. -/
theorem plain_of_digit? {value : Nat} {c : Char} (read : digit? radix c = some value) :
    isBlank c = false ∧ c ≠ ':' := by
  have table : ∀ code < 128, (digit? 16 (Char.ofNat code)).isSome = true →
      isBlank (Char.ofNat code) = false ∧ Char.ofNat code ≠ ':' := by
    decide +kernel
  have known := table c.toNat (toNat_lt_of_digit? read)
  rw [Char.ofNat_toNat, digit?_sixteen few read, Option.isSome_some] at known
  exact known rfl

end

/-! ## Runs of digits -/

/-- The digits of a number after any number of zeros, letters in either case. -/
def Spells (radix n : Nat) (text : List Char) : Prop :=
  ∃ zeros, text.map Char.toLower = List.replicate zeros '0' ++ Nat.toDigits radix n

/-- The digits of a number, perhaps behind a plus sign. -/
def Signed (radix n : Nat) (text : List Char) : Prop :=
  Spells radix n text ∨ ∃ digits, text = '+' :: digits ∧ Spells radix n digits

theorem Signed.spells {radix n : Nat} {text : List Char} (signed : Signed radix n text)
    (noPlus : '+' ∉ text) : Spells radix n text := by
  rcases signed with spells | ⟨digits, rfl, _⟩
  · exact spells
  · exact absurd List.mem_cons_self noPlus

theorem value?_concat (radix : Nat) (text : List Char) (c : Char) :
    value? radix (text ++ [c]) =
      (value? radix text).bind fun n => (digit? radix c).map (radix * n + ·) := by
  rw [value?, List.foldlM_append]
  congr 1
  funext n
  rw [List.foldlM_cons]
  cases digit? radix c <;> rfl

theorem value?_concat_eq_some_iff {radix n : Nat} {text : List Char} {c : Char} :
    value? radix (text ++ [c]) = some n ↔
      ∃ higher last, value? radix text = some higher ∧ digit? radix c = some last ∧
        radix * higher + last = n := by
  simp only [value?_concat, Option.bind_eq_some_iff, Option.map_eq_some_iff]
  constructor
  · rintro ⟨higher, before, last, read, rfl⟩
    exact ⟨higher, last, before, read, rfl⟩
  · rintro ⟨higher, last, before, read, rfl⟩
    exact ⟨higher, before, last, read, rfl⟩

theorem value?_map_toLower {radix : Nat} (few : radix ≤ 16) (text : List Char) :
    value? radix (text.map Char.toLower) = value? radix text := by
  rw [value?, List.foldlM_map]
  simp only [digit?_toLower few]
  rfl

section

variable {radix : Nat} (isRadix : IsRadix radix)
include isRadix

theorem value?_toDigits (n : Nat) : value? radix (Nat.toDigits radix n) = some n := by
  induction n using Nat.strongRecOn with
  | ind n ih =>
      by_cases single : n < radix
      · rw [Nat.toDigits_of_lt_base single, ← List.nil_append [_]]
        refine value?_concat_eq_some_iff.mpr ⟨0, n, rfl, ?_, ?_⟩
        · exact digit?_digitChar isRadix.few single
        · rw [Nat.mul_zero, Nat.zero_add]
      · have positive := isRadix.pos
        have long : radix ≤ n := Nat.le_of_not_lt single
        rw [Nat.toDigits_of_base_le isRadix.several long]
        refine value?_concat_eq_some_iff.mpr ⟨n / radix, n % radix, ?_, ?_, ?_⟩
        · exact ih _ (Nat.div_lt_self (by omega) isRadix.several)
        · exact digit?_digitChar isRadix.few (Nat.mod_lt _ positive)
        · exact Nat.div_add_mod n radix

theorem value?_zeros_append (zeros : Nat) (text : List Char) :
    value? radix (List.replicate zeros '0' ++ text) = value? radix text := by
  have zero : digit? radix '0' = some 0 := digit?_digitChar isRadix.few isRadix.pos
  induction zeros with
  | zero => rfl
  | succ zeros ih =>
      rw [List.replicate_succ, List.cons_append, ← ih, value?, List.foldlM_cons, zero]
      rfl

/-- The runs that spell a number are those that are read as it. Both sides add the last digit to
what the digits before it give. -/
theorem spells_iff {n : Nat} {text : List Char} :
    Spells radix n text ↔ text ≠ [] ∧ value? radix text = some n := by
  constructor
  · rintro ⟨zeros, spelled⟩
    constructor
    · rintro rfl
      exact Nat.toDigits_ne_nil (List.append_eq_nil_iff.mp spelled.symm).2
    · rw [← value?_map_toLower isRadix.few, spelled, value?_zeros_append isRadix,
        value?_toDigits isRadix]
  · rintro ⟨some, read⟩
    induction text using List.reverseRecOn generalizing n with
    | nil => exact absurd rfl some
    | append_singleton text c ih =>
        obtain ⟨higher, last, before, digit, rfl⟩ := value?_concat_eq_some_iff.mp read
        have small := lt_of_digit? isRadix.few digit
        rw [Spells, List.map_append, List.map_singleton, ← digitChar_of_digit? isRadix.few digit]
        by_cases empty : text = []
        · subst empty
          obtain rfl : higher = 0 := (Option.some.inj before).symm
          exact ⟨0, by rw [Nat.mul_zero, Nat.zero_add, Nat.toDigits_of_lt_base small]; rfl⟩
        · obtain ⟨zeros, spelled⟩ := ih empty before
          rw [spelled]
          by_cases zero : higher = 0
          · subst zero
            refine ⟨zeros + 1, ?_⟩
            rw [Nat.mul_zero, Nat.zero_add, Nat.toDigits_of_lt_base small, Nat.toDigits_zero,
              List.replicate_succ']
          · refine ⟨zeros, ?_⟩
            rw [List.append_assoc, ← Nat.toDigits_of_lt_base small,
              Nat.toDigits_append_toDigits isRadix.several (Nat.pos_of_ne_zero zero) small]

end

/-- A run is read as soon as each of its characters is a digit. -/
theorem exists_value?_iff {radix : Nat} {text : List Char} :
    (∃ n, value? radix text = some n) ↔ ∀ c ∈ text, ∃ value, digit? radix c = some value := by
  induction text using List.reverseRecOn with
  | nil => simp [value?]
  | append_singleton text c ih =>
      simp only [List.mem_append, List.mem_singleton, or_imp, forall_and, forall_eq, ← ih,
        value?_concat_eq_some_iff]
      constructor
      · rintro ⟨_, higher, last, before, digit, _⟩
        exact ⟨⟨higher, before⟩, last, digit⟩
      · rintro ⟨⟨higher, before⟩, last, digit⟩
        exact ⟨_, higher, last, before, digit, rfl⟩

section

variable {radix : Nat} (isRadix : IsRadix radix) {n : Nat} {text : List Char}
include isRadix

/-- One digit or more spell a number. -/
theorem exists_spells_iff :
    (∃ n, Spells radix n text) ↔ text ≠ [] ∧ ∀ c ∈ text, ∃ value, digit? radix c = some value := by
  simp only [spells_iff isRadix, exists_and_left, exists_value?_iff]

theorem digit?_of_spells (spells : Spells radix n text) {c : Char} (member : c ∈ text) :
    ∃ value, digit? radix c = some value :=
  ((exists_spells_iff isRadix).mp ⟨n, spells⟩).2 c member

/-- Digits are neither blanks nor colons. -/
theorem plain_of_spells (spells : Spells radix n text) {c : Char} (member : c ∈ text) :
    isBlank c = false ∧ c ≠ ':' := by
  obtain ⟨value, digit⟩ := digit?_of_spells isRadix spells member
  exact plain_of_digit? isRadix.few digit

theorem plus_not_mem_of_spells (spells : Spells radix n text) : '+' ∉ text := by
  intro member
  obtain ⟨value, digit⟩ := digit?_of_spells isRadix spells member
  cases digit?_sixteen isRadix.few digit

/-! ## Reading -/

theorem unsigned_of_spells (spells : Spells radix n text) : unsigned text = text := by
  unfold unsigned
  split
  · exact absurd List.mem_cons_self (plus_not_mem_of_spells isRadix spells)
  · rfl

theorem signed_iff : Signed radix n text ↔ Spells radix n (unsigned text) := by
  constructor
  · rintro (spells | ⟨digits, rfl, spells⟩)
    · rwa [unsigned_of_spells isRadix spells]
    · exact spells
  · unfold unsigned
    split
    · next digits => exact fun spells => .inr ⟨digits, rfl, spells⟩
    · exact .inl

theorem read?_of_signed {bound : Nat} (signed : Signed radix n text) :
    read? radix bound text = if n < bound then some n else none := by
  obtain ⟨some, read⟩ := (spells_iff isRadix).mp ((signed_iff isRadix).mp signed)
  rw [read?, if_neg (by rwa [List.isEmpty_iff]), read, Option.filter_some]
  simp only [decide_eq_true_eq]

/-- What is read is a number below the bound that the text spells, perhaps behind a plus sign. -/
theorem read?_eq_some_iff {bound : Nat} :
    read? radix bound text = some n ↔ n < bound ∧ Signed radix n text := by
  constructor
  · intro read
    simp only [read?, List.isEmpty_iff, Option.ite_none_left_eq_some, Option.filter_eq_some_iff,
      decide_eq_true_eq] at read
    obtain ⟨some, value, below⟩ := read
    exact ⟨below, (signed_iff isRadix).mpr ((spells_iff isRadix).mpr ⟨some, value⟩)⟩
  · rintro ⟨below, signed⟩
    rw [read?_of_signed isRadix signed, if_pos below]

/-- Apart from a plus sign there are digits only. -/
theorem digit?_of_signed (signed : Signed radix n text) {c : Char} (member : c ∈ text)
    (other : c ≠ '+') : ∃ value, digit? radix c = some value := by
  rcases signed with spells | ⟨digits, rfl, spells⟩
  · exact digit?_of_spells isRadix spells member
  · exact digit?_of_spells isRadix spells ((List.mem_cons.mp member).resolve_left other)

/-- What is read contains neither blanks nor colons. -/
theorem plain_of_signed (signed : Signed radix n text) {c : Char} (member : c ∈ text) :
    isBlank c = false ∧ c ≠ ':' := by
  by_cases plus : c = '+'
  · subst plus
    decide
  · obtain ⟨value, digit⟩ := digit?_of_signed isRadix signed member plus
    exact plain_of_digit? isRadix.few digit

/-! ## Writing -/

theorem spells_toDigits (n : Nat) : Spells radix n (Nat.toDigits radix n) :=
  (spells_iff isRadix).mpr ⟨Nat.toDigits_ne_nil, value?_toDigits isRadix n⟩

theorem exists_digitChar_of_mem_toDigits {c : Char} (member : c ∈ Nat.toDigits radix n) :
    ∃ value < radix, Nat.digitChar value = c := by
  induction n using Nat.strongRecOn with
  | ind n ih =>
      by_cases single : n < radix
      · rw [Nat.toDigits_of_lt_base single, List.mem_singleton] at member
        exact ⟨n, single, member.symm⟩
      · have positive := isRadix.pos
        have long : radix ≤ n := Nat.le_of_not_lt single
        rw [Nat.toDigits_of_base_le isRadix.several long, List.mem_append,
          List.mem_singleton] at member
        rcases member with higher | rfl
        · exact ih _ (Nat.div_lt_self (by omega) isRadix.several) higher
        · exact ⟨n % radix, Nat.mod_lt _ positive, rfl⟩

end

/-- Upper-case digits and filling zeros spell the same number. -/
theorem spells_paddedHex (width n : Nat) : Spells 16 n (paddedHex width n).toList := by
  have table : ∀ value < 16, (Nat.digitChar value).toUpper.toLower = Nat.digitChar value := by
    decide
  have lowered : (Nat.toDigits 16 n).map (Char.toLower ∘ Char.toUpper) = Nat.toDigits 16 n := by
    refine (List.map_congr_left ?_).trans (List.map_id _)
    intro c member
    obtain ⟨value, small, rfl⟩ := exists_digitChar_of_mem_toDigits isRadix_sixteen member
    exact table value small
  refine ⟨width - ((Nat.toDigits 16 n).map Char.toUpper).length, ?_⟩
  rw [paddedHex, String.toList_ofList, List.leftpad, List.map_append, List.map_replicate,
    List.map_map, lowered]
  rfl

end WidthTrace.Text.Numeral
