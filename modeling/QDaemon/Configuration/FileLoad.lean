import QDaemon.Configuration.Core

/-!
# Loading from a file

`qd_config_load` reads the file through a buffer of 1024 bytes.  A line that does not fit
is read in pieces, and each piece is taken for a line.  Shorter lines are read as
`qd_config_load_string` reads them.
-/

namespace QDaemon.Configuration

open List Text

/-! ## Directives of pieces -/

/-- The end of its line says nothing about a piece. -/
theorem directive_concat_newline (text : Chars) : directive (text ++ ['\n']) = directive text := by
  have same : trim (text ++ ['\n']) = trim text := trim_concat (by decide) text
  rw [directive, same, directive]

/-- Only the directives of the lines matter. -/
theorem foldl_line_eq (lines : List Chars) (loading : Loading) : lines.foldl Loading.line loading =
      (lines.filterMap directive).foldl Loading.perform loading := by
  induction lines generalizing loading with
  | nil => rfl
  | cons text lines ih =>
    rw [foldl_cons, ih, Loading.line, filterMap_cons]
    cases directive text <;> rfl

/-- The directives `qd_config_load` finds. -/
def pieceDirectives (text : Chars) : List Directive :=
  (pieces '\n' lineRoom lineRoom text).filterMap directive

variable {content : Chars}

theorem load_eq (free : '\x00' ∉ content) :
    load content = ((pieceDirectives content).foldl Loading.perform Loading.create).config := by
  have strings : (pieces '\n' lineRoom lineRoom content).map cString =
      pieces '\n' lineRoom lineRoom content := by
    rw [map_congr_left, map_id]
    intro piece mem
    refine cString_of_not_mem fun zero => free ?_
    rw [← flatten_pieces lineRoom lineRoom content]
    exact mem_flatten_of_mem mem zero
  rw [load, ← foldl_map, strings, foldl_line_eq, pieceDirectives]

theorem loadString_eq (free : '\x00' ∉ content) : loadString content =
      (((splitLines '\n' content).filterMap directive).foldl Loading.perform
        Loading.create).config := by
  rw [loadString, cString_of_not_mem free, foldl_line_eq]

/-- A line whose pieces ask for the same as the line. -/
def Whole (line : Chars) : Prop :=
  pieceDirectives line = (directive line).toList

/-- A line that fits in the buffer. -/
theorem whole_of_length {line : Chars} (free : '\n' ∉ line) (fits : line.length ≤ lineRoom) :
    Whole line := by
  cases line with
  | nil => rfl
  | cons first line =>
    rw [Whole, pieceDirectives, pieces_of_not_mem _ free (by simp) fits, filterMap_cons]
    cases directive (first :: line) <;> rfl

/-- The end of a line adds no directive, whether it is read with the last piece or as a
piece of its own. -/
theorem pieceDirectives_append {line : Chars} (free : '\n' ∉ line) (rest : Chars) :
    pieceDirectives (line ++ '\n' :: rest) = pieceDirectives line ++ pieceDirectives rest := by
  rcases pieces_append_newline lineRoom lineRoom free rest with split | ⟨front, last, cut, split⟩
  · rw [pieceDirectives, split, filterMap_append]
    rfl
  · rw [pieceDirectives, split, pieceDirectives, cut, filterMap_append, filterMap_append,
      append_assoc]
    simp only [filterMap_cons, directive_concat_newline]
    cases directive last <;> rfl

/-- Whole lines give the directives of the text. -/
theorem pieceDirectives_eq (whole : ∀ line ∈ splitLines '\n' content, Whole line) :
    pieceDirectives content = (splitLines '\n' content).filterMap directive := by
  -- By the length of what is left, one line at a time.
  induction size : content.length using Nat.strong_induction_on generalizing content with
  | _ size ih =>
    subst size
    rcases line_cases '\n' content with free | ⟨line, rest, free, rfl⟩
    · cases content with
      | nil => rfl
      | cons first content =>
        rw [splitLines_of_not_mem free (by simp)] at whole ⊢
        rw [whole _ (by simp), filterMap_cons]
        cases directive (first :: content) <;> rfl
    · rw [splitLines_append free] at whole ⊢
      have shorter : rest.length < (line ++ '\n' :: rest).length := by
        rw [length_append, length_cons]
        omega
      rw [pieceDirectives_append free, whole line mem_cons_self,
        ih _ shorter (fun other mem => whole other (mem_cons_of_mem _ mem)) rfl,
        filterMap_cons]
      cases directive line <;> rfl

/-! ## Longer lines -/

theorem directive_comment (text : Chars) : directive ('#' :: text) = none := by
  have starts : ∃ rest, Text.trim isspace ('#' :: text) = '#' :: rest := trim_cons (by decide) text
  obtain ⟨rest, kept⟩ := starts
  rw [directive, trim, kept]
  simp

theorem directive_equals (text : Chars) : ∃ value, directive ('=' :: text) = some (.entry [] value) := by
  have starts : ∃ rest, Text.trim isspace ('=' :: text) = '=' :: rest := trim_cons (by decide) text
  obtain ⟨rest, kept⟩ := starts
  rw [directive, trim, kept]
  exact ⟨trim rest, by simp [before, Text.after, trim, Text.trim]⟩

/-- A comment of the given length.  If it does not fit in the buffer, its second piece is
no comment. -/
def comment (length : Nat) : Chars :=
  if length ≤ lineRoom then List.replicate length '#'
  else List.replicate lineRoom '#' ++ '=' :: List.replicate (length - lineRoom - 1) '#'

theorem length_comment (length : Nat) : (comment length).length = length := by
  rw [comment]
  split_ifs with fits
  · exact length_replicate
  · rw [length_append, length_cons, length_replicate, length_replicate]
    omega

theorem mem_comment {length : Nat} {char : Char} (mem : char ∈ comment length) :
    char = '#' ∨ char = '=' := by
  rw [comment] at mem
  split_ifs at mem with fits
  · exact .inl (eq_of_mem_replicate mem)
  · rcases mem_append.mp mem with mem | mem
    · exact .inl (eq_of_mem_replicate mem)
    · rcases mem_cons.mp mem with same | mem
      · exact .inr same
      · exact .inl (eq_of_mem_replicate mem)

theorem newline_not_mem_comment (length : Nat) : '\n' ∉ comment length := by
  intro mem
  rcases mem_comment mem with same | same <;> cases same

theorem directive_comment_eq_none (length : Nat) : directive (comment length) = none := by
  rw [comment]
  split_ifs with fits
  · cases length with
    | zero => rfl
    | succ length =>
      exact directive_comment _
  · rw [lineRoom, replicate_succ]
    exact directive_comment _

/-- The second piece of a comment that does not fit sets an entry. -/
theorem pieceDirectives_long {length : Nat} (long : ¬length ≤ lineRoom) :
    ∃ value others, pieceDirectives (comment length) = .entry [] value :: others := by
  have free : '\n' ∉ List.replicate lineRoom '#' := by simp
  have first : directive (List.replicate lineRoom '#') = none := by
    exact directive_comment _
  have starts : ∃ rest others,
      pieces '\n' lineRoom lineRoom ('=' :: List.replicate (length - lineRoom - 1) '#') =
        ('=' :: rest) :: others := pieces_cons _ _ _ _
  obtain ⟨rest, others, cut⟩ := starts
  obtain ⟨value, second⟩ := directive_equals rest
  refine ⟨value, others.filterMap directive, ?_⟩
  have nonempty : List.replicate lineRoom '#' ≠ [] := cons_ne_nil _ _
  rw [comment, if_neg long, pieceDirectives, pieces_full _ free length_replicate nonempty, cut,
    filterMap_cons_none first, filterMap_cons_some second]

theorem addEntry_ne_nil (key : Chars) (value : Option Chars) (entries : List Entry) :
    addEntry key value entries ≠ [] := by
  cases entries with
  | nil => simp [addEntry]
  | cons entry entries =>
    rw [addEntry]
    split_ifs <;> simp

/-- Entries outside of any section stay. -/
theorem globals_ne_nil (asked : List Directive) {loading : Loading}
    (present : loading.config.globals ≠ []) :
    (asked.foldl Loading.perform loading).config.globals ≠ [] := by
  induction asked generalizing loading with
  | nil => exact present
  | cons first asked ih =>
    apply ih
    cases first with
    | header name =>
      rw [Loading.perform, Config.createSection]
      split <;> exact present
    | entry key value =>
      rw [Loading.perform]
      cases loading.cur with
      | none => exact addEntry_ne_nil _ _ _
      | some index => exact present

/-- Comments of the given lengths. -/
def comments (lengths : List Nat) : Chars :=
  lengths.flatMap fun length => comment length ++ ['\n']

theorem comments_cons (length : Nat) (lengths : List Nat) :
    comments (length :: lengths) = comment length ++ '\n' :: comments lengths := by
  simp [comments]

theorem splitLines_comments (lengths : List Nat) :
    splitLines '\n' (comments lengths) = lengths.map comment := by
  induction lengths with
  | nil => rfl
  | cons length lengths ih =>
    rw [comments_cons, splitLines_append (newline_not_mem_comment length), ih, map_cons]

theorem zero_not_mem_comments (lengths : List Nat) : '\x00' ∉ comments lengths := by
  rw [comments, mem_flatMap]
  rintro ⟨length, -, mem⟩
  rcases mem_append.mp mem with mem | mem
  · rcases mem_comment mem with same | same <;> cases same
  · exact absurd (mem_singleton.mp mem) (by decide)

theorem loadString_comments (lengths : List Nat) : loadString (comments lengths) = Config.create := by
  have none_ : (lengths.map comment).filterMap directive = [] := by
    rw [filterMap_eq_nil_iff]
    intro line mem
    obtain ⟨length, -, rfl⟩ := mem_map.mp mem
    exact directive_comment_eq_none length
  rw [loadString_eq (zero_not_mem_comments lengths), splitLines_comments, none_]
  rfl

/-- A file of comments, one of which does not fit in the buffer, sets an entry. -/
theorem load_comments {lengths : List Nat} (long : ∃ length ∈ lengths, ¬length ≤ lineRoom) :
    (load (comments lengths)).globals ≠ [] := by
  rw [load_eq (zero_not_mem_comments lengths)]
  induction lengths with
  | nil => simp at long
  | cons length lengths ih =>
    rw [comments_cons, pieceDirectives_append (newline_not_mem_comment length)]
    by_cases fits : length ≤ lineRoom
    · have short : pieceDirectives (comment length) = [] := by
        rw [whole_of_length (newline_not_mem_comment length) (by rwa [length_comment]),
          directive_comment_eq_none]
        rfl
      rw [short]
      apply ih
      obtain ⟨other, mem, tooLong⟩ := long
      rcases mem_cons.mp mem with rfl | later
      · exact absurd fits tooLong
      · exact ⟨other, later, tooLong⟩
    · obtain ⟨value, others, asked⟩ := pieceDirectives_long fits
      rw [asked, cons_append, foldl_cons]
      apply globals_ne_nil
      exact addEntry_ne_nil _ _ _

/-- For files with lines of the given lengths, loading the file and loading its text agree
exactly if every line fits in the buffer. -/
theorem load_eq_loadString_iff (lengths : List Nat) : (∀ content : Chars, '\x00' ∉ content →
      (splitLines '\n' content).map List.length = lengths → load content = loadString content) ↔
      ∀ length ∈ lengths, length ≤ lineRoom := by
  constructor
  · intro agree length mem
    by_contra long
    have same := agree (comments lengths) (zero_not_mem_comments lengths) (by
      rw [splitLines_comments, map_map, map_congr_left, map_id]
      intro other _
      exact length_comment other)
    rw [loadString_comments] at same
    apply load_comments ⟨length, mem, long⟩
    rw [same]
    rfl
  · rintro fits content free rfl
    rw [load_eq free, loadString_eq free, pieceDirectives_eq]
    intro line mem
    apply whole_of_length fun inLine => (mem_of_mem_splitLines mem inLine).2 rfl
    exact fits _ (mem_map_of_mem mem)

/-- A value of 1022 characters behind a key of one loses its last character when it is read
from a file. -/
theorem load_ne_loadString_longValue :
    ∃ content : Chars, '\x00' ∉ content ∧ load content ≠ loadString content :=
  ⟨'a' :: '=' :: List.replicate 1022 'x', by decide +kernel, by decide +kernel⟩

end QDaemon.Configuration
