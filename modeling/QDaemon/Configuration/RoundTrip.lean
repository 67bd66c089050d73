import Mathlib.Data.List.Nodup
import QDaemon.Configuration.Core

/-!
# Printing and loading a configuration

A line of text can only ask for names, keys and values that print to a line with the
same meaning.  Loading keeps a configuration within these, with unique names and keys,
and loading the print of such a configuration gives it back.
-/

namespace QDaemon.Configuration

open Option List Text

/-! ## What a line can ask for -/

/-- Text within one line of a string. -/
structure OneLine (text : Chars) : Prop where
  newline : '\n' ∉ text
  zero : '\x00' ∉ text

variable {text : Chars}

theorem OneLine.of_subset {part : Chars} (line : OneLine text) (subset : part ⊆ text) :
    OneLine part :=
  ⟨fun mem => line.newline (subset mem), fun mem => line.zero (subset mem)⟩

/-- A name between brackets. -/
structure NameText (name : Chars) : Prop where
  trimmed : Trimmed isspace name
  bracket : ']' ∉ name
  line : OneLine name

/-- A key in front of an equals sign, at the start of a line. -/
structure KeyText (key : Chars) : Prop where
  trimmed : Trimmed isspace key
  equals : '=' ∉ key
  start : ∀ first, key.head? = some first → first ≠ '#' ∧ first ≠ ';' ∧ first ≠ '['
  line : OneLine key

/-- A value behind an equals sign. -/
structure ValueText (value : Chars) : Prop where
  trimmed : Trimmed isspace value
  line : OneLine value

/-- The texts of a directive. -/
def Directive.Readable : Directive → Prop
  | .header name => NameText name
  | .entry key value => KeyText key ∧ ValueText value

theorem trim_subset (text : Chars) : trim text ⊆ text := fun _ mem => mem_of_mem_trim mem

theorem trim_head {first : Char} (head : (trim text).head? = some first) : isspace first = false :=
  (trim_trimmed text).head first head

/-- The key in front of the equals sign starts as the line does. -/
theorem keyText_before {text : Chars} {first : Char} {rest : Chars} (line : OneLine text)
    (whole : trim text = first :: rest) (notComment : ¬(first = '#' ∨ first = ';'))
    (notHeader : first ≠ '[') : KeyText (trim (before '=' (first :: rest))) := by
  have notBlank : isspace first = false := trim_head (by rw [whole]; rfl)
  refine ⟨trim_trimmed _, fun mem => not_mem_before _ (trim_subset _ mem), ?_, ?_⟩
  · intro start head
    have same : start = first := by
      by_cases atOnce : first = '='
      · simp [before, atOnce, trim, Text.trim] at head
      · rw [before, takeWhile_cons_of_pos (by simpa using atOnce)] at head
        obtain ⟨kept, startsSo⟩ :=
          trim_cons notBlank (rest.takeWhile fun char => decide (char ≠ '='))
        rw [trim, startsSo] at head
        cases head
        rfl
    rw [not_or] at notComment
    rw [same]
    exact ⟨notComment.1, notComment.2, notHeader⟩
  · apply line.of_subset
    intro char mem
    have inLine : char ∈ trim text := whole ▸ mem_of_mem_before (trim_subset _ mem)
    exact trim_subset _ inLine

/-- Whatever a line asks for is readable. -/
theorem directive_readable {asked : Directive} (line : OneLine text)
    (parsed : directive text = some asked) : asked.Readable := by
  rw [directive] at parsed
  split at parsed
  · cases parsed
  next first rest whole =>
    have inLine : ∀ char ∈ first :: rest, char ∈ text := by
      intro char mem
      exact trim_subset text (whole ▸ mem)
    split_ifs at parsed with comment header closed equals
    · cases parsed
      refine ⟨trim_trimmed _, fun mem => not_mem_before _ (trim_subset _ mem), ?_⟩
      apply line.of_subset
      intro char mem
      exact inLine char (mem_cons_of_mem _ (mem_of_mem_before (trim_subset _ mem)))
    · cases parsed
      refine ⟨keyText_before line whole comment header, trim_trimmed _, ?_⟩
      apply line.of_subset
      intro char mem
      exact inLine char (mem_of_mem_after (trim_subset _ mem))

/-! ## What a configuration can hold -/

/-- Entries as the loaders make them. -/
structure EntriesReadable (entries : List Entry) : Prop where
  texts : ∀ entry ∈ entries, KeyText entry.key ∧ ∃ value, entry.value = some value ∧ ValueText value
  unique : (entries.map Entry.key).Nodup

/-- Configurations as the loaders make them. -/
structure Config.Readable (config : Config) : Prop where
  globals : EntriesReadable config.globals
  entries : ∀ part ∈ config.sections, EntriesReadable part.entries
  names : ∀ part ∈ config.sections, part.name ≠ [] ∧ NameText part.name
  unique : (config.sections.map Section.name).Nodup

theorem Config.Readable.create : Config.create.Readable :=
  ⟨⟨by simp [Config.create], by simp [Config.create]⟩, by simp [Config.create],
    by simp [Config.create], by simp [Config.create]⟩

variable {entries : List Entry} {key : Chars} {value : Option Chars}

theorem addEntry_of_not_mem (missing : key ∉ entries.map Entry.key) :
    addEntry key value entries = entries ++ [⟨key, value⟩] := by
  induction entries with
  | nil => rfl
  | cons entry entries ih =>
    rw [map_cons, mem_cons, not_or] at missing
    rw [addEntry, if_neg (Ne.symm missing.1), ih missing.2, cons_append]

theorem keys_addEntry (known : key ∈ entries.map Entry.key) :
    (addEntry key value entries).map Entry.key = entries.map Entry.key := by
  induction entries with
  | nil => cases known
  | cons entry entries ih =>
    rw [addEntry]
    split_ifs with same
    · rw [map_cons, map_cons, same]
    · rw [map_cons, map_cons, ih ((mem_cons.mp known).resolve_left (Ne.symm same))]

theorem addEntry_unique (unique : (entries.map Entry.key).Nodup) :
    ((addEntry key value entries).map Entry.key).Nodup := by
  by_cases known : key ∈ entries.map Entry.key
  · rwa [keys_addEntry known]
  · rw [addEntry_of_not_mem known, map_append]
    exact concat_eq_append ▸ Nodup.concat known unique

theorem mem_addEntry {entry : Entry} (mem : entry ∈ addEntry key value entries) :
    entry = ⟨key, value⟩ ∨ entry ∈ entries := by
  induction entries with
  | nil => simpa [addEntry] using mem
  | cons first entries ih =>
    rw [addEntry] at mem
    split_ifs at mem with same
    · rcases mem_cons.mp mem with rfl | mem
      · exact .inl rfl
      · exact .inr (mem_cons_of_mem _ mem)
    · rcases mem_cons.mp mem with rfl | mem
      · exact .inr mem_cons_self
      · exact (ih mem).imp_right (mem_cons_of_mem _)

theorem EntriesReadable.addEntry (readable : EntriesReadable entries) {value : Chars}
    (keyText : KeyText key) (valueText : ValueText value) :
    EntriesReadable (addEntry key (some value) entries) := by
  refine ⟨?_, addEntry_unique readable.unique⟩
  intro entry mem
  rcases mem_addEntry mem with rfl | mem
  · exact ⟨keyText, value, rfl, valueText⟩
  · exact readable.texts entry mem

variable {config : Config}

theorem getSection_eq_none_iff {name : Chars} :
    config.getSection name = none ↔ name ≠ [] ∧ name ∉ config.sections.map Section.name := by
  rw [Config.getSection]
  split_ifs with unnamed
  · simp [unnamed]
  · simp [unnamed, List.findIdx?_eq_none_iff]

theorem Config.Readable.createSection (readable : config.Readable) {name : Chars}
    (nameText : NameText name) : (config.createSection name).1.Readable := by
  rw [Config.createSection]
  split
  · exact readable
  next missing =>
    obtain ⟨named, fresh⟩ := getSection_eq_none_iff.mp missing
    refine ⟨readable.globals, forall_mem_append.mpr ⟨readable.entries, ?_⟩,
      forall_mem_append.mpr ⟨readable.names, ?_⟩, ?_⟩
    · exact forall_mem_singleton.mpr ⟨by simp, by simp⟩
    · exact forall_mem_singleton.mpr ⟨named, nameText⟩
    · rw [map_append]
      exact concat_eq_append ▸ Nodup.concat fresh readable.unique

theorem Config.Readable.addAt (readable : config.Readable) (place : Place) {value : Chars}
    (keyText : KeyText key) (valueText : ValueText value) :
    (config.addAt place key (some value)).Readable := by
  cases place with
  | none => exact ⟨readable.globals.addEntry keyText valueText, readable.entries, readable.names,
      readable.unique⟩
  | some index =>
    have sameNames : (config.addAt (some index) key (some value)).sections.map Section.name =
        config.sections.map Section.name := by
      apply ext_getElem
      · simp [Config.addAt]
      · intro position _ _
        simp only [Config.addAt, getElem_map, getElem_modify]
        split_ifs <;> rfl
    refine ⟨readable.globals, ?_, ?_, sameNames ▸ readable.unique⟩
    · intro part mem
      obtain ⟨position, inside, rfl⟩ := mem_iff_getElem.mp mem
      simp only [Config.addAt, length_modify] at inside
      have old := readable.entries _ (getElem_mem inside)
      simp only [Config.addAt, getElem_modify]
      split_ifs
      · exact old.addEntry keyText valueText
      · exact old
    · intro part mem
      obtain ⟨old, oldMem, sameName⟩ := mem_map.mp (sameNames ▸ mem_map_of_mem mem)
      rw [← sameName]
      exact readable.names old oldMem

/-- One line keeps the configuration readable. -/
theorem Loading.line_readable {loading : Loading} (readable : loading.config.Readable)
    (line : OneLine text) : (loading.line text).config.Readable := by
  rw [Loading.line]
  cases parsed : directive text with
  | none => exact readable
  | some asked =>
    have texts := directive_readable line parsed
    cases asked with
    | header name => exact readable.createSection texts
    | entry key value => exact readable.addAt _ texts.1 texts.2

theorem foldl_line_readable {lines : List Chars} (allLines : ∀ text ∈ lines, OneLine text)
    {loading : Loading} (readable : loading.config.Readable) :
    (lines.foldl Loading.line loading).config.Readable := by
  induction lines generalizing loading with
  | nil => exact readable
  | cons text lines ih =>
    apply ih fun other mem => allLines other (mem_cons_of_mem _ mem)
    exact Loading.line_readable readable (allLines text mem_cons_self)

/-- Whatever text is loaded, the configuration is readable. -/
theorem loadString_readable (text : Chars) : (loadString text).Readable := by
  apply foldl_line_readable
  · intro line mem
    have free := zero_not_mem_cString text
    exact ⟨fun inLine => (mem_of_mem_splitLines mem inLine).2 rfl,
      fun zero => free (mem_of_mem_splitLines mem zero).1⟩
  · exact .create

/-! ## The printed lines -/

/-- The line of an entry, without its end. -/
def entryLine (entry : Entry) : Chars :=
  entry.key ++ [' ', '=', ' '] ++ entry.value.getD []

/-- The lines of a section. -/
def sectionLines (part : Section) : List Chars :=
  [] :: ('[' :: part.name ++ [']']) :: part.entries.map entryLine

theorem entryLine_oneLine (readable : EntriesReadable entries) {entry : Entry}
    (mem : entry ∈ entries) : OneLine (entryLine entry) := by
  obtain ⟨keyText, value, isValue, valueText⟩ := readable.texts entry mem
  constructor
  · simp [entryLine, isValue, keyText.line.newline, valueText.line.newline]
  · simp [entryLine, isValue, keyText.line.zero, valueText.line.zero]

theorem splitLines_printEntries (free : ∀ entry ∈ entries, '\n' ∉ entryLine entry) (rest : Chars) :
    splitLines '\n' (entries.flatMap printEntry ++ rest) =
      entries.map entryLine ++ splitLines '\n' rest := by
  induction entries with
  | nil => rfl
  | cons entry entries ih =>
    have shape : (entry :: entries).flatMap printEntry ++ rest =
        entryLine entry ++ '\n' :: (entries.flatMap printEntry ++ rest) := by
      simp [printEntry, entryLine]
    rw [shape, splitLines_append (free entry mem_cons_self),
      ih fun other mem => free other (mem_cons_of_mem _ mem)]
    rfl

theorem splitLines_printSections {sections : List Section}
    (entries : ∀ part ∈ sections, EntriesReadable part.entries)
    (names : ∀ part ∈ sections, NameText part.name) :
    splitLines '\n' (sections.flatMap printSection) = sections.flatMap sectionLines := by
  induction sections with
  | nil => rfl
  | cons part sections ih =>
    have shape : (part :: sections).flatMap printSection =
        [] ++ '\n' :: ('[' :: part.name ++ [']'] ++ '\n' ::
          (part.entries.flatMap printEntry ++ sections.flatMap printSection)) := by
      simp [printSection]
    have header : '\n' ∉ '[' :: part.name ++ [']'] := by
      simp [(names part mem_cons_self).line.newline]
    have readable := entries part mem_cons_self
    rw [shape, splitLines_append (by simp), splitLines_append header,
      splitLines_printEntries fun entry mem => (entryLine_oneLine readable mem).newline,
      ih (fun other mem => entries other (mem_cons_of_mem _ mem))
        fun other mem => names other (mem_cons_of_mem _ mem)]
    rfl

theorem zero_not_mem_printEntries (readable : EntriesReadable entries) :
    '\x00' ∉ entries.flatMap printEntry := by
  rw [mem_flatMap]
  rintro ⟨entry, mem, zero⟩
  have shape : printEntry entry = entryLine entry ++ ['\n'] := rfl
  simp [shape, (entryLine_oneLine readable mem).zero] at zero

/-- There is no zero byte in the print, so the loader sees all of it. -/
theorem zero_not_mem_print (readable : config.Readable) : '\x00' ∉ print config := by
  rw [print, mem_append, not_or]
  refine ⟨zero_not_mem_printEntries readable.globals, ?_⟩
  rw [mem_flatMap]
  rintro ⟨part, mem, zero⟩
  have name := (readable.names part mem).2.line.zero
  have entries := zero_not_mem_printEntries (readable.entries part mem)
  simp only [printSection, mem_append, entries, name] at zero
  simp at zero

/-! ## Reading a printed line -/

/-- The line of a header asks for its section. -/
theorem directive_header {name : Chars} (nameText : NameText name) :
    directive ('[' :: name ++ [']']) = some (.header name) := by
  have trimmed : trim ('[' :: name ++ [']']) = '[' :: (name ++ [']']) := by
    apply Trimmed.trim_eq
    constructor
    · intro char head
      cases head
      rfl
    · intro char last
      rw [List.getLast?_concat] at last
      cases last
      rfl
  rw [directive, trimmed]
  simp only [before_append nameText.bracket, trim, nameText.trimmed.trim_eq]
  simp

/-- The line of an entry without the blanks around it: what stands in front of the equals
sign and what stands behind. -/
theorem trim_entryLine {value : Chars} (keyText : KeyText key) (valueText : ValueText value) :
    trim (key ++ [' ', '=', ' '] ++ value) =
      (if key = [] then [] else key ++ [' ']) ++ '=' :: (if value = [] then [] else ' ' :: value) := by
  have body : Trimmed isspace ((if key = [] then [] else key ++ [' ']) ++
        '=' :: (if value = [] then [] else ' ' :: value)) := by
    constructor
    · intro char head
      cases key with
      | nil =>
        cases head
        rfl
      | cons first key =>
        apply keyText.trimmed.head char
        simpa using head
    · intro char last
      cases value with
      | nil =>
        rw [if_pos rfl, List.getLast?_concat] at last
        cases last
        rfl
      | cons first value =>
        apply valueText.trimmed.last char
        rw [List.getLast?_append_of_ne_nil _ (by simp), if_neg (by simp),
          List.getLast?_cons_cons] at last
        exact last
  have around : key ++ [' ', '=', ' '] ++ value =
      (if key = [] then [' '] else []) ++ ((if key = [] then [] else key ++ [' ']) ++
          '=' :: (if value = [] then [] else ' ' :: value)) ++
        (if value = [] then [' '] else []) := by
    by_cases noKey : key = [] <;> by_cases noValue : value = [] <;> simp [noKey, noValue]
  have lead : ∀ char ∈ (if key = [] then [' '] else []), isspace char = true := by
    intro char mem
    split_ifs at mem with noKey
    · cases mem_singleton.mp mem
      rfl
    · simp at mem
  rw [around, append_assoc, trim, trim_append_left lead]
  by_cases noValue : value = []
  · rw [if_pos noValue, if_pos noValue, trim_concat (by decide)]
    rw [if_pos noValue] at body
    exact body.trim_eq
  · rw [if_neg noValue, if_neg noValue, append_nil]
    rw [if_neg noValue] at body
    exact body.trim_eq

/-- The line of an entry asks for it. -/
theorem directive_entryLine {value : Chars} (keyText : KeyText key) (valueText : ValueText value) :
    directive (key ++ [' ', '=', ' '] ++ value) = some (.entry key value) := by
  have free : '=' ∉ (if key = [] then [] else key ++ [' ']) := by
    split_ifs <;> simp [keyText.equals]
  have keyBack : trim (if key = [] then [] else key ++ [' ']) = key := by
    split_ifs with noKey
    · rw [noKey]
      rfl
    · rw [trim, trim_concat (by decide), keyText.trimmed.trim_eq]
  have valueBack : trim (if value = [] then [] else ' ' :: value) = value := by
    split_ifs with noValue
    · rw [noValue]
      rfl
    · have blank : ∀ char ∈ [' '], isspace char = true := by simp [isspace]
      rw [trim, ← singleton_append, trim_append_left blank, valueText.trimmed.trim_eq]
  rw [directive, trim_entryLine keyText valueText]
  generalize tail : (if value = [] then [] else ' ' :: value) = behind at valueBack
  cases key with
  | nil => simpa [before, Text.after, trim, Text.trim] using valueBack
  | cons first key =>
    obtain ⟨notHash, notSemicolon, notBracket⟩ := keyText.start first rfl
    rw [if_neg (by simp)] at free keyBack ⊢
    have split : first :: (key ++ [' '] ++ '=' :: behind) =
        (first :: key ++ [' ']) ++ '=' :: behind := by simp
    simp only [cons_append]
    rw [if_neg (by simp [notHash, notSemicolon]), if_neg notBracket, split,
      if_pos (by simp), before_append free, after_append free, keyBack, valueBack]

/-! ## Loading the printed lines -/

theorem modify_length_append (present : List Section) (part : Section) (change : Section → Section) :
    (present ++ [part]).modify present.length change = present ++ [change part] := by
  induction present with
  | nil => rfl
  | cons first present ih =>
    rw [cons_append, length_cons, modify_succ_cons, ih, cons_append]

/-- The lines of entries put them at the end of the current section, whose entries `put`
sets. -/
theorem foldl_entryLines (put : List Entry → Config) {place : Place} (adds : ∀ entries key value,
      (put entries).addAt place key value = put (addEntry key value entries))
    (present : List Entry) (readable : EntriesReadable (present ++ entries)) :
    (entries.map entryLine).foldl Loading.line ⟨put present, place⟩ =
      ⟨put (present ++ entries), place⟩ := by
  induction entries generalizing present with
  | nil => simp
  | cons entry entries ih =>
    obtain ⟨keyText, value, isValue, valueText⟩ := readable.texts entry (by simp)
    have unique := readable.unique
    rw [map_append, map_cons, nodup_middle, nodup_cons, mem_append, not_or] at unique
    have one : Loading.line ⟨put present, place⟩ (entryLine entry) =
        ⟨put (present ++ [entry]), place⟩ := by
      have same : some value = entry.value := isValue.symm
      rw [Loading.line, entryLine, isValue, getD_some,
        directive_entryLine keyText valueText, elim_some, Loading.perform, same, adds,
        addEntry_of_not_mem unique.1.1]
    rw [map_cons, foldl_cons, one, ih _ (by simpa using readable)]
    simp

/-- The lines of a section with a new name put it at the end. -/
theorem foldl_sectionLines {globals : List Entry} {present : List Section} {cur : Place}
    {part : Section} (named : part.name ≠ []) (nameText : NameText part.name)
    (readable : EntriesReadable part.entries) (fresh : part.name ∉ present.map Section.name) :
    (sectionLines part).foldl Loading.line ⟨⟨globals, present⟩, cur⟩ =
      ⟨⟨globals, present ++ [part]⟩, some present.length⟩ := by
  have missing : Config.getSection ⟨globals, present⟩ part.name = none :=
    getSection_eq_none_iff.mpr ⟨named, fresh⟩
  have opened : Loading.line ⟨⟨globals, present⟩, cur⟩ ('[' :: part.name ++ [']']) =
      ⟨⟨globals, present ++ [⟨part.name, []⟩]⟩, some present.length⟩ := by
    rw [Loading.line, directive_header nameText, elim_some, Loading.perform,
      Config.createSection, missing]
  have adds : ∀ entries key value,
      Config.addAt ⟨globals, present ++ [⟨part.name, entries⟩]⟩ (some present.length) key value =
        ⟨globals, present ++ [⟨part.name, addEntry key value entries⟩]⟩ := by
    intro entries key value
    rw [Config.addAt, modify_length_append]
  rw [sectionLines, foldl_cons, foldl_cons]
  rw [show Loading.line ⟨⟨globals, present⟩, cur⟩ [] = ⟨⟨globals, present⟩, cur⟩ from rfl, opened]
  exact foldl_entryLines (fun entries => ⟨globals, present ++ [⟨part.name, entries⟩]⟩) adds []
    readable

theorem foldl_sections {globals : List Entry} {present sections : List Section} {cur : Place}
    (entries : ∀ part ∈ sections, EntriesReadable part.entries)
    (names : ∀ part ∈ sections, part.name ≠ [] ∧ NameText part.name)
    (unique : ((present ++ sections).map Section.name).Nodup) :
    ((sections.flatMap sectionLines).foldl Loading.line ⟨⟨globals, present⟩, cur⟩).config =
      ⟨globals, present ++ sections⟩ := by
  induction sections generalizing present cur with
  | nil => simp
  | cons part sections ih =>
    have apart := unique
    rw [map_append, map_cons, nodup_middle, nodup_cons, mem_append, not_or] at apart
    obtain ⟨named, nameText⟩ := names part mem_cons_self
    rw [flatMap_cons, foldl_append,
      foldl_sectionLines named nameText (entries part mem_cons_self) apart.1.1,
      ih (fun other mem => entries other (mem_cons_of_mem _ mem))
        (fun other mem => names other (mem_cons_of_mem _ mem)) (by simpa using unique)]
    simp

/-- The print of a readable configuration loads as that configuration. -/
theorem loadString_print_of_readable (readable : config.Readable) :
    loadString (print config) = config := by
  have lines : splitLines '\n' (print config) =
      config.globals.map entryLine ++ config.sections.flatMap sectionLines := by
    rw [print, splitLines_printEntries fun entry mem =>
        (entryLine_oneLine readable.globals mem).newline,
      splitLines_printSections readable.entries fun part mem => (readable.names part mem).2]
  rw [loadString, cString_of_not_mem (zero_not_mem_print readable), lines, foldl_append]
  have adds : ∀ entries key value,
      Config.addAt ⟨entries, []⟩ none key value = ⟨addEntry key value entries, []⟩ :=
    fun _ _ _ => rfl
  have globals := foldl_entryLines (fun entries => ⟨entries, []⟩) adds [] readable.globals
  rw [show Loading.create = ⟨⟨[], []⟩, none⟩ from rfl, globals]
  exact foldl_sections readable.entries readable.names readable.unique

/-- Whatever text is loaded, the print of the configuration loads as the same
configuration: the same entries and sections in the same order. -/
theorem loadString_print_loadString (text : Chars) :
    loadString (print (loadString text)) = loadString text :=
  loadString_print_of_readable (loadString_readable text)

end QDaemon.Configuration
