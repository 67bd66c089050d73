import Mathlib.Data.List.DropRight
import Mathlib.Data.List.Infix

/-!
# Lines, blanks and separators

Texts as lists of characters: removing the blanks around a text, cutting it at the
first separator, and the two ways of reading a text line by line, whole lines or
lines through a buffer of fixed size.
-/

namespace QDaemon.Text

open List

universe u

variable {α : Type u}

/-! ## Blanks around a text -/

section Trim

/-- Remove the blanks at both ends. -/
def trim (blank : α → Bool) (text : List α) : List α :=
  (text.dropWhile blank).rdropWhile blank

/-- Neither end of the text is a blank. -/
structure Trimmed (blank : α → Bool) (text : List α) : Prop where
  head : ∀ char, text.head? = some char → blank char = false
  last : ∀ char, text.getLast? = some char → blank char = false

variable {blank : α → Bool} {text : List α}
variable {char : α}

theorem dropWhile_of_head (head : ∀ char, text.head? = some char → blank char = false) :
    text.dropWhile blank = text := by
  cases text with
  | nil => rfl
  | cons char text => rw [dropWhile_cons_of_neg (by simp [head char rfl])]

theorem rdropWhile_of_last (last : ∀ char, text.getLast? = some char → blank char = false) :
    text.rdropWhile blank = text := by
  rw [List.rdropWhile, dropWhile_of_head, reverse_reverse]
  rwa [List.head?_reverse]

/-- A trimmed text is left as it is. -/
theorem Trimmed.trim_eq (trimmed : Trimmed blank text) : trim blank text = text := by
  rw [trim, dropWhile_of_head trimmed.head, rdropWhile_of_last trimmed.last]

theorem head_dropWhile (text : List α) (char : α)
    (head : (text.dropWhile blank).head? = some char) : blank char = false := by
  have first := List.head?_dropWhile_not blank text
  rwa [head] at first

/-- What is left has no blank at its ends. -/
theorem trim_trimmed (text : List α) : Trimmed blank (trim blank text) := by
  constructor
  · intro char head
    obtain ⟨rest, whole⟩ := rdropWhile_prefix blank (text.dropWhile blank)
    apply head_dropWhile text
    rw [trim] at head
    rw [← whole, List.head?_append, head, Option.some_or]
  · intro char last
    rw [trim, List.rdropWhile, List.getLast?_reverse] at last
    exact head_dropWhile _ _ last

/-- A text that starts with no blank keeps its first character. -/
theorem trim_cons (notBlank : blank char = false) (text : List α) :
    ∃ rest, trim blank (char :: text) = char :: rest := by
  rw [trim, dropWhile_cons_of_neg (by simp [notBlank])]
  obtain ⟨tail, joined⟩ := rdropWhile_prefix blank (char :: text)
  cases kept : (char :: text).rdropWhile blank with
  | nil =>
    have allBlank := rdropWhile_eq_nil_iff.mp kept char mem_cons_self
    exact absurd allBlank (by simp [notBlank])
  | cons first rest =>
    rw [kept, cons_append, List.cons.injEq] at joined
    exact ⟨rest, by rw [joined.1]⟩

theorem mem_of_mem_trim (mem : char ∈ trim blank text) : char ∈ text :=
  (dropWhile_suffix blank).subset ((List.rdropWhile_prefix blank _).subset mem)

/-- Blanks in front do not matter. -/
theorem trim_append_left {blanks : List α} (allBlank : ∀ char ∈ blanks, blank char = true)
    (text : List α) : trim blank (blanks ++ text) = trim blank text := by
  rw [trim, dropWhile_append_of_pos allBlank, trim]

/-- A blank behind does not matter. -/
theorem trim_concat (isBlank : blank char = true) (text : List α) :
    trim blank (text ++ [char]) = trim blank text := by
  rw [trim, trim, dropWhile_append]
  split_ifs with empty
  · simp [isEmpty_iff.mp empty, isBlank]
  · exact rdropWhile_concat_pos blank _ char isBlank

end Trim

/-! ## Separators -/

section Separators

variable [DecidableEq α]

/-- The text in front of the first separator, or all of it. -/
def before (separator : α) (text : List α) : List α :=
  text.takeWhile (· ≠ separator)

/-- The text behind the first separator. -/
def after (separator : α) (text : List α) : List α :=
  (text.dropWhile (· ≠ separator)).tail

variable {separator : α}

theorem not_mem_before (text : List α) : separator ∉ before separator text := by
  intro mem
  simpa using mem_takeWhile_imp mem

theorem mem_of_mem_before {text : List α} (mem : char ∈ before separator text) : char ∈ text :=
  (List.takeWhile_prefix _).subset mem

theorem mem_of_mem_after {text : List α} (mem : char ∈ after separator text) : char ∈ text :=
  (dropWhile_suffix _).subset (mem_of_mem_tail mem)

theorem all_differ {text : List α} (free : separator ∉ text) :
    ∀ char ∈ text, decide (char ≠ separator) = true := by
  intro char mem
  have other : char ≠ separator := by
    rintro rfl
    exact free mem
  simpa using other

theorem before_append {first : List α} (free : separator ∉ first) (rest : List α) :
    before separator (first ++ separator :: rest) = first := by
  rw [before, takeWhile_append_of_pos (all_differ free)]
  simp

theorem after_append {first : List α} (free : separator ∉ first) (rest : List α) :
    after separator (first ++ separator :: rest) = rest := by
  rw [after, dropWhile_append_of_pos (all_differ free)]
  simp

theorem before_of_not_mem {text : List α} (free : separator ∉ text) :
    before separator text = text := by
  rw [before, takeWhile_eq_self_iff]
  exact all_differ free

end Separators

/-! ## Reading by lines -/

section Lines

variable [DecidableEq α]

/-- Put a character in front of the first piece. -/
def extend (char : α) : List (List α) → List (List α)
  | [] => [[char]]
  | piece :: pieces => (char :: piece) :: pieces

/-- The lines of a text without their ends.  There is none behind the last end. -/
def splitLines (newline : α) : List α → List (List α)
  | [] => []
  | char :: text =>
      if char = newline then [] :: splitLines newline text
      else extend char (splitLines newline text)

/-- The pieces of a text that a reader with a buffer gets: a piece stops behind the end
of its line or when the buffer is full.  `room` is what is left of the buffer at the
current piece, `size` what a new one has. -/
def pieces (newline : α) (size : Nat) : Nat → List α → List (List α)
  | _, [] => []
  | room, char :: text =>
      if char = newline ∨ room ≤ 1 then [char] :: pieces newline size size text
      else extend char (pieces newline size (room - 1) text)

variable {newline : α} {line : List α}

theorem splitLines_append (free : newline ∉ line) (rest : List α) :
    splitLines newline (line ++ newline :: rest) = line :: splitLines newline rest := by
  induction line with
  | nil => simp [splitLines]
  | cons char line ih =>
    rw [mem_cons, not_or] at free
    rw [cons_append, splitLines, if_neg (Ne.symm free.1), ih free.2, extend]

theorem splitLines_of_not_mem (free : newline ∉ line) (nonempty : line ≠ []) :
    splitLines newline line = [line] := by
  induction line with
  | nil => exact absurd rfl nonempty
  | cons char line ih =>
    rw [mem_cons, not_or] at free
    rw [splitLines, if_neg (Ne.symm free.1)]
    cases line with
    | nil => rfl
    | cons second line => rw [ih free.2 (by simp), extend]

omit [DecidableEq α] in
theorem flatten_extend (char : α) (pieces : List (List α)) :
    (extend char pieces).flatten = char :: pieces.flatten := by
  cases pieces <;> rfl

/-- The lines have the characters of the text, without the ends of the lines. -/
theorem flatten_splitLines (text : List α) :
    (splitLines newline text).flatten = text.filter (· ≠ newline) := by
  induction text with
  | nil => rfl
  | cons char text ih =>
    rw [splitLines]
    split_ifs with atEnd
    · rw [flatten_cons, nil_append, ih, filter_cons_of_neg (by simpa using atEnd)]
    · rw [flatten_extend, ih, filter_cons_of_pos (by simpa using atEnd)]

theorem mem_of_mem_splitLines {text : List α} (mem : line ∈ splitLines newline text)
    (inLine : char ∈ line) : char ∈ text ∧ char ≠ newline := by
  have mem := mem_flatten_of_mem mem inLine
  rw [flatten_splitLines] at mem
  simpa using mem

/-- The pieces have the characters of the text. -/
theorem flatten_pieces (size room : Nat) (text : List α) :
    (pieces newline size room text).flatten = text := by
  induction text generalizing room with
  | nil => rfl
  | cons char text ih =>
    rw [pieces]
    split_ifs
    · rw [flatten_cons, ih, singleton_append]
    · rw [flatten_extend, ih]

/-- A last line without its end is one piece if it fits. -/
theorem pieces_of_not_mem {room : Nat} (size : Nat) (free : newline ∉ line) (nonempty : line ≠ [])
    (fits : line.length ≤ room) : pieces newline size room line = [line] := by
  induction line generalizing room with
  | nil => exact absurd rfl nonempty
  | cons char line ih =>
    rw [mem_cons, not_or] at free
    rw [length_cons] at fits
    cases line with
    | nil => simp [pieces, extend]
    | cons second line =>
      rw [pieces, if_neg, ih free.2 (by simp) (by omega), extend]
      rw [not_or]
      exact ⟨Ne.symm free.1, by simp at fits; omega⟩

/-- Characters that fill the buffer are a piece. -/
theorem pieces_full {front : List α} {room : Nat} (size : Nat) (free : newline ∉ front)
    (full : front.length = room) (nonempty : front ≠ []) (rest : List α) :
    pieces newline size room (front ++ rest) = front :: pieces newline size size rest := by
  induction front generalizing room with
  | nil => exact absurd rfl nonempty
  | cons char front ih =>
    rw [mem_cons, not_or] at free
    rw [length_cons] at full
    rw [cons_append, pieces]
    cases front with
    | nil => rw [if_pos (.inr (by simp at full; omega)), nil_append]
    | cons second front =>
      rw [if_neg, ih free.2 (by omega) (by simp), extend]
      rw [not_or]
      exact ⟨Ne.symm free.1, by simp at full; omega⟩

/-- The first piece starts as the text does. -/
theorem pieces_cons (size room : Nat) (char : α) (text : List α) :
    ∃ rest others, pieces newline size room (char :: text) = (char :: rest) :: others := by
  rw [pieces]
  split_ifs
  · exact ⟨[], _, rfl⟩
  · cases pieces newline size (room - 1) text with
    | nil => exact ⟨[], [], rfl⟩
    | cons first others => exact ⟨first, others, rfl⟩

/-- The end of a line is a piece of its own, if the line fills its pieces, or the end of
the last one. -/
theorem pieces_append_newline (size room : Nat) (free : newline ∉ line) (rest : List α) :
    pieces newline size room (line ++ newline :: rest) =
        pieces newline size room line ++ [newline] :: pieces newline size size rest ∨
      ∃ front last, pieces newline size room line = front ++ [last] ∧
        pieces newline size room (line ++ newline :: rest) =
          front ++ (last ++ [newline]) :: pieces newline size size rest := by
  induction line generalizing room with
  | nil => exact .inl (by simp [pieces])
  | cons char line ih =>
    rw [mem_cons, not_or] at free
    rw [cons_append, pieces, pieces]
    split_ifs with full
    · rcases ih size free.2 with split | ⟨front, last, cut, split⟩
      · exact .inl (by rw [split, cons_append])
      · exact .inr ⟨[char] :: front, last, by rw [cut, cons_append], by rw [split, cons_append]⟩
    · rcases ih (room - 1) free.2 with split | ⟨front, last, cut, split⟩
      · rw [split]
        cases pieces newline size (room - 1) line with
        | nil => exact .inr ⟨[], [char], rfl, rfl⟩
        | cons first others => exact .inl rfl
      · rw [split, cut]
        cases front with
        | nil => exact .inr ⟨[], char :: last, rfl, rfl⟩
        | cons first front => exact .inr ⟨(char :: first) :: front, last, rfl, rfl⟩

/-- Every text is a line and its end in front of a shorter text, or a line without end. -/
theorem line_cases (newline : α) (text : List α) :
    newline ∉ text ∨ ∃ line rest, newline ∉ line ∧ text = line ++ newline :: rest := by
  by_cases mem : newline ∈ text
  · obtain ⟨line, rest, whole, free⟩ := eq_append_cons_of_mem mem
    exact .inr ⟨line, rest, free, whole⟩
  · exact .inl mem

end Lines

end QDaemon.Text
