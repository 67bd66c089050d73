import QDaemon.Text.Ctype

/-!
# Log lines

`qd_log.c` builds the lead of a line and the rows of a hex dump in arrays of fixed size.  A
cursor goes forward by what `snprintf` would have written and the room goes down by the
same, so after a cut the room can be negative.  A write with negative room, converted to
`size_t`, is not bounded by the array any more.
-/

namespace QDaemon.Log

open Text

/-- Ways in which a call does not return: the thread waits for the lock that it holds, or
it writes outside of an array. -/
inductive Halt
  | deadlock
  | overrun
  deriving DecidableEq, Repr

/-! ## The cursor -/

/-- What has been written to an array, and the variable `rem`. -/
structure Cursor where
  text : Chars
  rem : Int
  deriving DecidableEq

namespace Cursor

/-- The start of an array. -/
def start (size : Nat) : Cursor :=
  ⟨[], size⟩

/-- `n = snprintf(p, rem, ...); p += n; rem -= n;`. -/
def print (cursor : Cursor) (text : Chars) : Except Halt Cursor :=
  if cursor.rem < 0 then .error .overrun
  else .ok ⟨cursor.text ++ text.take (cursor.rem.toNat - 1), cursor.rem - text.length⟩

/-- `*p++ = c; rem--;`. -/
def store (cursor : Cursor) (char : Char) : Except Halt Cursor :=
  if cursor.rem ≤ 0 then .error .overrun
  else .ok ⟨cursor.text ++ [char], cursor.rem - 1⟩

end Cursor

/-! ## Numbers -/

/-- `%d`. -/
def decimal (number : Int) : Chars :=
  if number < 0 then '-' :: Nat.toDigits 10 number.natAbs else Nat.toDigits 10 number.natAbs

/-- `%0*x` with the given width. -/
def hexadecimal (width number : Nat) : Chars :=
  let digits := Nat.toDigits 16 number
  List.replicate (width - digits.length) '0' ++ digits

/-! ## Levels -/

/-- `qd_log_level_t`. -/
inductive Level
  | fatal
  | error
  | warn
  | info
  | debug
  | trace
  deriving DecidableEq, Repr

namespace Level

def toNat : Level → Nat
  | .fatal => 0
  | .error => 1
  | .warn => 2
  | .info => 3
  | .debug => 4
  | .trace => 5

/-- `level_names`. -/
def name : Level → Chars
  | .fatal => "FATAL".toList
  | .error => "ERROR".toList
  | .warn => "WARN".toList
  | .info => "INFO".toList
  | .debug => "DEBUG".toList
  | .trace => "TRACE".toList

/-- `level_colors`. -/
def color : Level → Chars
  | .fatal => "\x1b[1;31m".toList
  | .error => "\x1b[0;31m".toList
  | .warn => "\x1b[0;33m".toList
  | .info => "\x1b[0;32m".toList
  | .debug => "\x1b[0;36m".toList
  | .trace => "\x1b[0;37m".toList

end Level

/-- `color_reset`. -/
def colorReset : Chars := "\x1b[0m".toList

/-! ## The lead of a line -/

/-- The place in the program that logs. -/
structure Site where
  file : Option Chars
  line : Int
  func : Option Chars

/-- What the system answers during a call: whether `malloc` and `fopen` succeed, the size
that `fstat` reports, whether `stderr` is a terminal, and the time and the ids. -/
structure System where
  allocated : Bool
  opened : Bool
  size : Option Nat
  tty : Bool
  timestamp : Chars
  pid : Int
  tid : Int

def flagTimestamp : BitVec 32 := 0x01
def flagLevel : BitVec 32 := 0x02
def flagFile : BitVec 32 := 0x04
def flagLine : BitVec 32 := 0x08
def flagFunc : BitVec 32 := 0x10
def flagPid : BitVec 32 := 0x20
def flagTid : BitVec 32 := 0x40
def flagColor : BitVec 32 := 0x80

/-- A bit is set in a mask. -/
def has (mask bit : BitVec 32) : Bool :=
  mask &&& bit ≠ 0

def bracketed (text : Chars) : Chars :=
  '[' :: text ++ [']', ' ']

/-- The text behind the last slash. -/
def basename (file : Chars) : Chars :=
  file.rtakeWhile (· ≠ '/')

/-- `%-5s`. -/
def padded (text : Chars) : Chars :=
  text ++ List.replicate (5 - text.length) ' '

/-- The texts that `log_output` prints to `prefix[512]`, in order. -/
def leadTexts (flags : BitVec 32) (system : System) (level : Level) (site : Site) : List Chars :=
  (if has flags flagTimestamp then [bracketed system.timestamp] else []) ++
  (if has flags flagLevel then [bracketed (padded level.name)] else []) ++
  (if has flags flagPid then [bracketed (decimal system.pid)] else []) ++
  (if has flags flagTid then [bracketed (decimal system.tid)] else []) ++
  (match has flags flagFile, site.file with
    | true, some file =>
        if has flags flagLine then [bracketed (basename file ++ ':' :: decimal site.line)]
        else [bracketed (basename file)]
    | _, _ => []) ++
  (match has flags flagFunc, site.func with
    | true, some func => [bracketed func]
    | _, _ => [])

/-- The lead of a line. -/
def lead (flags : BitVec 32) (system : System) (level : Level) (site : Site) :
    Except Halt Chars := do
  let cursor ← (leadTexts flags system level site).foldlM Cursor.print (Cursor.start 512)
  pure cursor.text

/-! ## Rows of a hex dump -/

/-- The texts of a row in front of its characters: the offset and sixteen cells. -/
def rowTexts (front : Chars) (data : List (BitVec 8)) (offset : Nat) : List Chars :=
  [front ++ hexadecimal 4 offset ++ [':', ' ']] ++
  (List.range 16).map (fun column =>
    match data[offset + column]? with
    | some byte => hexadecimal 2 byte.toNat ++ [' ']
    | none => [' ', ' ', ' ']) ++
  [[' ']]

/-- The character that stands for a byte. -/
def rowChar (byte : BitVec 8) : Char :=
  if 32 ≤ byte.toNat ∧ byte.toNat < 127 then Char.ofNat byte.toNat else '.'

/-- One row of `qd_log_hexdump`, in `line[128]`. -/
def row (front : Chars) (data : List (BitVec 8)) (offset : Nat) : Except Halt Chars := do
  let cursor ← (rowTexts front data offset).foldlM Cursor.print (Cursor.start 128)
  let cursor ← (((data.drop offset).take 16).map rowChar).foldlM Cursor.store cursor
  if cursor.rem ≤ 0 then .error .overrun else pure cursor.text

end QDaemon.Log
