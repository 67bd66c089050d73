import QDaemon.Text.Ctype

/-!
# The configuration file

`qd_config.c`: a configuration is a list of entries outside of any section and a list of
named sections, each with its own entries.  The loaders read a text line by line; a line
opens a section, sets an entry or says nothing.
-/

namespace QDaemon.Configuration

open Text

/-- `trim`. -/
def trim (text : Chars) : Chars :=
  Text.trim isspace text

/-! ## Entries and sections -/

/-- `qd_config_entry_t`. -/
structure Entry where
  key : Chars
  value : Option Chars
  deriving DecidableEq

/-- `qd_config_section_t`. -/
structure Section where
  name : Chars
  entries : List Entry
  deriving DecidableEq

/-- `qd_config_t`.  The section `global` has no name. -/
structure Config where
  globals : List Entry
  sections : List Section
  deriving DecidableEq

/-- `qd_config_create`. -/
def Config.create : Config :=
  ⟨[], []⟩

/-- A pointer to a section: `none` is `global`, `some index` a named section. -/
abbrev Place := Option Nat

/-- `add_entry`: the first entry with the key gets the value; if there is none, a new
entry is put at the end. -/
def addEntry (key : Chars) (value : Option Chars) : List Entry → List Entry
  | [] => [⟨key, value⟩]
  | entry :: entries =>
      if entry.key = key then ⟨key, value⟩ :: entries
      else entry :: addEntry key value entries

namespace Config

/-- `qd_config_get_section`. -/
def getSection (config : Config) (name : Chars) : Option Place :=
  if name = [] then some none
  else (config.sections.findIdx? fun part => part.name = name).map some

/-- `qd_config_create_section`. -/
def createSection (config : Config) (name : Chars) : Config × Place :=
  match config.getSection name with
  | some place => (config, place)
  | none => (⟨config.globals, config.sections ++ [⟨name, []⟩]⟩, some config.sections.length)

/-- `add_entry` in a section. -/
def addAt (config : Config) (place : Place) (key : Chars) (value : Option Chars) : Config :=
  match place with
  | none => ⟨addEntry key value config.globals, config.sections⟩
  | some index =>
      ⟨config.globals, config.sections.modify index fun part =>
        ⟨part.name, addEntry key value part.entries⟩⟩

end Config

/-! ## Loading -/

/-- What a line of the file asks for. -/
inductive Directive
  | header (name : Chars)
  | entry (key value : Chars)
  deriving DecidableEq

/-- The directive of a line, if it has one: blank lines, comments, headers without a
closing bracket and other lines without an equals sign are skipped. -/
def directive (line : Chars) : Option Directive :=
  match trim line with
  | [] => none
  | first :: rest =>
      if first = '#' ∨ first = ';' then none
      else if first = '[' then
        if ']' ∈ rest then some (.header (trim (before ']' rest))) else none
      else if '=' ∈ first :: rest then
        some (.entry (trim (before '=' (first :: rest))) (trim (after '=' (first :: rest))))
      else none

/-- The configuration while it is loaded, and the section `cur`. -/
structure Loading where
  config : Config
  cur : Place
  deriving DecidableEq

namespace Loading

/-- `qd_config_create`, and the global section as the first one. -/
def create : Loading :=
  ⟨Config.create, none⟩

def perform (loading : Loading) : Directive → Loading
  | .header name =>
      let created := loading.config.createSection name
      ⟨created.1, created.2⟩
  | .entry key value => ⟨loading.config.addAt loading.cur key (some value), loading.cur⟩

/-- The body of the loop of both loaders. -/
def line (loading : Loading) (text : Chars) : Loading :=
  (directive text).elim loading loading.perform

end Loading

/-- `qd_config_load_string`. -/
def loadString (text : Chars) : Config :=
  ((splitLines '\n' (cString text)).foldl Loading.line Loading.create).config

/-- The characters `fgets` reads at most into `line[1024]`. -/
def lineRoom : Nat := 1023

/-- `qd_config_load` of a file with the given content. -/
def load (content : Chars) : Config :=
  ((pieces '\n' lineRoom lineRoom content).foldl
    (fun loading piece => loading.line (cString piece)) Loading.create).config

/-! ## Printing -/

/-- `fprintf(fp, "%s = %s\n", ...)`. -/
def printEntry (entry : Entry) : Chars :=
  entry.key ++ [' ', '=', ' '] ++ entry.value.getD [] ++ ['\n']

/-- `fprintf(fp, "\n[%s]\n", ...)` and the entries. -/
def printSection (part : Section) : Chars :=
  ['\n', '['] ++ part.name ++ [']', '\n'] ++ part.entries.flatMap printEntry

/-- `qd_config_print`, which writes what `qd_config_save` writes. -/
def print (config : Config) : Chars :=
  config.globals.flatMap printEntry ++ config.sections.flatMap printSection

end QDaemon.Configuration
