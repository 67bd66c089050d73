import QDaemon.Log.Format
import Mathlib.Algebra.GroupWithZero.Nat

/-!
# Bounds of the line buffers

`snprintf` cuts a text that does not fit and returns its whole length.  Nothing tests for that, so
a cut text is harmless only at the end of a buffer: whatever is printed behind it is outside.  The
characters of a row of a hex dump and the zero behind them are stored without any bound.
-/

namespace QDaemon.Log

open Text

/-- Printing leaves the given room, or it goes outside of the array and the room is negative. -/
def Leaves (printed : Except Halt Cursor) (room : Int) : Prop :=
  (printed = .error .overrun ∧ room < 0) ∨ ∃ cursor, printed = .ok cursor ∧ cursor.rem = room

theorem Leaves.bind {printed : Except Halt Cursor} {room : Int} {width : Nat}
    {rest : Cursor → Except Halt Cursor} (first : Leaves printed room)
    (then_ : ∀ cursor, Leaves (rest cursor) (cursor.rem - width)) :
    Leaves (printed >>= rest) (room - width) := by
  rcases first with ⟨failed, short⟩ | ⟨cursor, printed, left⟩
  · rw [failed]
    exact .inl ⟨rfl, by omega⟩
  · rw [printed, ← left]
    exact then_ cursor

theorem foldlM_leaves {α : Type} {put : Cursor → α → Except Halt Cursor} {width : α → Nat}
    (one : ∀ cursor item, Leaves (put cursor item) (cursor.rem - width item)) (items : List α)
    (cursor : Cursor) : Leaves (items.foldlM put cursor) (cursor.rem - (items.map width).sum) := by
  induction items generalizing cursor with
  | nil => exact .inr ⟨cursor, rfl, by simp⟩
  | cons item items ih =>
    rw [List.foldlM_cons, List.map_cons, List.sum_cons, Int.natCast_add, ← Int.sub_sub]
    exact (one cursor item).bind ih

theorem Cursor.print_leaves (cursor : Cursor) (text : Chars) :
    Leaves (cursor.print text) (cursor.rem - text.length) := by
  rw [Cursor.print]
  split
  · exact .inl ⟨rfl, by omega⟩
  · exact .inr ⟨_, rfl, rfl⟩

theorem Cursor.store_leaves (cursor : Cursor) (char : Char) :
    Leaves (cursor.store char) (cursor.rem - (1 : Nat)) := by
  rw [Cursor.store]
  split
  · exact .inl ⟨rfl, by omega⟩
  · exact .inr ⟨_, rfl, rfl⟩

/-! ## The lead of a line -/

/-- The characters in front of the last text of a lead. -/
def leadLength (flags : BitVec 32) (system : System) (level : Level) (site : Site) : Nat :=
  ((leadTexts flags system level site).dropLast.map List.length).sum

theorem lead_cases (flags : BitVec 32) (system : System) (level : Level) (site : Site) :
    (lead flags system level site = .error .overrun ∧ 512 < leadLength flags system level site) ∨
      ∃ front, lead flags system level site = .ok front ∧
        leadLength flags system level site ≤ 512 := by
  rw [lead, leadLength]
  rcases List.eq_nil_or_concat (leadTexts flags system level site) with empty | ⟨texts, last, eq⟩
  · rw [empty]
    exact .inr ⟨_, rfl, by simp⟩
  · rw [eq, List.concat_eq_append, List.foldlM_append, List.dropLast_concat]
    rcases foldlM_leaves Cursor.print_leaves texts (Cursor.start 512) with
      ⟨failed, short⟩ | ⟨cursor, printed, left⟩
    · rw [failed]
      exact .inl ⟨rfl, Int.ofNat_lt.mp (Int.lt_of_sub_neg short)⟩
    · rw [printed]
      change ((cursor.print last >>= pure) >>= _) = _ ∧ _ ∨
        ∃ front, ((cursor.print last >>= pure) >>= _) = _ ∧ _
      rw [Cursor.print, left]
      split
      next negative => exact .inl ⟨rfl, Int.ofNat_lt.mp (Int.lt_of_sub_neg negative)⟩
      next inside => exact .inr ⟨_, rfl, Int.ofNat_le.mp (Int.sub_nonneg.mp (Int.not_lt.mp inside))⟩

/-! ## Rows of a hex dump -/

theorem length_hexadecimal {width number : Nat} (positive : 0 < width)
    (short : number < 16 ^ width) : (hexadecimal width number).length = width := by
  have digits := (Nat.length_toDigits_le_iff (by decide) positive).mpr short
  simp [hexadecimal, digits]

/-- The characters of a row, without the zero behind them. -/
def rowLength (front : Chars) (data : List (BitVec 8)) (offset : Nat) : Nat :=
  front.length + (hexadecimal 4 offset).length + 51 + min 16 (data.length - offset)

theorem sum_rowTexts (front : Chars) (data : List (BitVec 8)) (offset : Nat) :
    ((rowTexts front data offset).map List.length).sum =
      front.length + (hexadecimal 4 offset).length + 51 := by
  rw [rowTexts, List.map_append, List.map_append, List.map_map,
    List.eq_replicate_of_mem (l := List.map (_ ∘ _) _) (a := 3)]
  · simp
    omega
  · intro width mem
    obtain ⟨column, _, rfl⟩ := List.mem_map.mp mem
    rw [Function.comp]
    split
    · rw [List.length_append, length_hexadecimal (by decide) (BitVec.isLt _)]
      rfl
    · rfl

theorem row_cases (front : Chars) (data : List (BitVec 8)) (offset : Nat) :
    (row front data offset = .error .overrun ∧ 128 ≤ rowLength front data offset) ∨
      ∃ line, row front data offset = .ok line ∧ rowLength front data offset < 128 := by
  have texts := foldlM_leaves Cursor.print_leaves (rowTexts front data offset) (Cursor.start 128)
  have stored := texts.bind fun cursor =>
    foldlM_leaves Cursor.store_leaves (((data.drop offset).take 16).map rowChar) cursor
  rw [sum_rowTexts, List.map_const', List.sum_replicate_nat, List.length_map, List.length_take,
    List.length_drop] at stored
  rw [row, ← bind_assoc, rowLength]
  rcases stored with ⟨failed, short⟩ | ⟨cursor, printed, left⟩
  · rw [failed]
    simp only [Cursor.start] at short
    exact .inl ⟨rfl, by omega⟩
  · rw [printed]
    simp only [Cursor.start] at left
    change (if cursor.rem ≤ 0 then _ else _) = _ ∧ _ ∨ ∃ line, (if cursor.rem ≤ 0 then _ else _) = _ ∧ _
    split
    · exact .inl ⟨rfl, by omega⟩
    · exact .inr ⟨_, rfl, by omega⟩

/-- Every row of a dump and every lead stay inside of their arrays exactly if the characters of a
row leave room for the zero, and those in front of the last text of a lead for that text. -/
theorem lines_contained_iff (front : Chars) (data : List (BitVec 8)) (flags : BitVec 32)
    (system : System) (level : Level) (site : Site) :
    ((∀ index < (data.length + 15) / 16, ∃ line, row front data (16 * index) = .ok line) ∧
      ∃ text, lead flags system level site = .ok text) ↔
    (∀ index < (data.length + 15) / 16, rowLength front data (16 * index) < 128) ∧
      leadLength flags system level site ≤ 512 := by
  have line (offset : Nat) : (∃ line, row front data offset = .ok line) ↔
      rowLength front data offset < 128 := by
    rcases row_cases front data offset with ⟨failed, long⟩ | ⟨line, printed, short⟩
    · simp [failed, long]
    · simp [printed, short]
  have text : (∃ text, lead flags system level site = .ok text) ↔
      leadLength flags system level site ≤ 512 := by
    rcases lead_cases flags system level site with ⟨failed, long⟩ | ⟨text, printed, short⟩
    · simp [failed, long]
    · simp [printed, short]
  simp only [line, text]

/-- A row of sixteen bytes behind sixty characters, and a name behind a long file name. -/
theorem lines_overrun : row (List.replicate 60 'p') (List.replicate 16 0) 0 = .error .overrun ∧
      lead (flagFile ||| flagFunc) ⟨true, true, none, false, [], 0, 0⟩ .info
        ⟨some (List.replicate 520 'f'), 1, some ['g']⟩ = .error .overrun := by
  decide +kernel

end QDaemon.Log
