import QDaemon.Common
import QDaemon.Log.Format
import QDaemon.Transition.Run

/-!
# The logger

`qd_log.c`: one global record under one lock that is not recursive.  Public calls take the
lock, and some of them call others.  Taking the lock a second time does not return.

The files are those of the file system by their paths; a stream is the path that it was
opened with.
-/

namespace QDaemon.Log

open Function Common Text Transition

def errExist : Int := -8

/-! ## State -/

def targetStderr : BitVec 32 := 0x01
def targetFile : BitVec 32 := 0x02
def targetSyslog : BitVec 32 := 0x04
def targetCustom : BitVec 32 := 0x08

/-- `qd_log_config_t`, with the size and the number of files of its rotation settings. -/
structure Config where
  level : Level
  targets : BitVec 32
  flags : BitVec 32
  filePath : Option Chars
  maxSize : Nat
  maxFiles : Int
  bufferSize : Nat

/-- `QD_LOG_CONFIG_DEFAULT`. -/
def Config.default : Config where
  level := .info
  targets := targetStderr
  flags := flagTimestamp ||| flagLevel
  filePath := none
  maxSize := 10 * 1024 * 1024
  maxFiles := 5
  bufferSize := 4096

/-- Output other than to the file. -/
inductive Output
  | stderr (text : Chars)
  | syslog (level : Level) (text : Chars)
  | custom (level : Level) (site : Site) (text : Chars)

/-- `g_log` and the files.  `buffer` has the bytes in front of `buffer_pos`, if there is a
buffer; `held` says that the calling thread holds the lock. -/
structure Logger where
  config : Config
  file : Option Chars
  initialized : Bool
  held : Bool
  handler : Bool
  syslogOpen : Bool
  buffer : Option Chars
  messages : Level → Nat
  bytesWritten : Nat
  rotations : Nat
  files : Chars → Option Chars
  outputs : List Output

/-- `g_log` as it is initialised, with the files that exist. -/
def Logger.initial (files : Chars → Option Chars) : Logger where
  config := .default
  file := none
  initialized := false
  held := false
  handler := false
  syslogOpen := false
  buffer := none
  messages := fun _ => 0
  bytesWritten := 0
  rotations := 0
  files := files
  outputs := []

namespace Logger

/-! ## Lock and files -/

/-- `pthread_mutex_lock`. -/
def lock (log : Logger) : Except Halt Logger :=
  if log.held then .error .deadlock else .ok { log with held := true }

/-- `pthread_mutex_unlock`. -/
def unlock (log : Logger) : Logger :=
  { log with held := false }

/-- Write to the open stream. -/
def append (log : Logger) (text : Chars) : Logger :=
  match log.file with
  | none => log
  | some path =>
      { log with files := update log.files path (some ((log.files path).getD [] ++ text)) }

/-- `log_open_file`. -/
def openFile (log : Logger) (system : System) : Int × Logger :=
  match log.config.filePath with
  | none => (qdErrInval, log)
  | some path =>
      if system.opened then
        (qdOk, { log with
          file := some path
          files := update log.files path (some ((log.files path).getD [])) })
      else (qdErrIo, { log with file := none })

/-- `unlink`. -/
def unlink (log : Logger) (path : Chars) : Logger :=
  { log with files := update log.files path none }

/-- `rename`. -/
def rename (log : Logger) (old new : Chars) : Logger :=
  match log.files old with
  | none => log
  | some content =>
      if old = new then log
      else { log with
        files := update (update log.files new (some content)) old none }

/-- The path of a rotated file, in an array of `PATH_MAX` bytes. -/
def generation (path : Chars) (number : Nat) : Chars :=
  (path ++ '.' :: Nat.toDigits 10 number).take 4095

/-- The loop of `qd_log_rotate`, from the given number down to one. -/
def shift (path : Chars) : Nat → Logger → Logger
  | 0, log => log
  | number + 1, log =>
      shift path number
        (log.rename (generation path (number + 1)) (generation path (number + 2)))

/-! ## Files -/

/-- `qd_log_rotate`. -/
def rotate (log : Logger) (system : System) : Except Halt (Int × Logger) := do
  let log ← log.lock
  match log.file, log.config.filePath with
  | some _, some path =>
      let maxFiles := if log.config.maxFiles ≤ 0 then 5 else log.config.maxFiles.toNat
      let log := { log with file := none }
      let log := log.unlink (generation path maxFiles)
      let log := shift path (maxFiles - 1) log
      let log := log.rename path (generation path 1)
      let (code, log) := log.openFile system
      pure (code, { log with rotations := log.rotations + 1 }.unlock)
  | _, _ => pure (qdErrInval, log.unlock)

/-- `qd_log_reopen`. -/
def reopen (log : Logger) (system : System) : Except Halt (Int × Logger) := do
  let log ← log.lock
  let (code, log) := { log with file := none }.openFile system
  pure (code, log.unlock)

/-- `qd_log_flush`. -/
def flush (log : Logger) : Except Halt Logger := do
  let log ← log.lock
  match log.buffer, log.file with
  | some (first :: rest), some _ =>
      pure { log.append (first :: rest) with buffer := some [] }.unlock
  | _, _ => pure log.unlock

/-- `log_rotate_check`. -/
def rotateCheck (log : Logger) (system : System) : Except Halt Logger :=
  if log.file = none ∨ log.config.maxSize = 0 then pure log
  else
    match system.size with
    | none => pure log
    | some size =>
        if size < log.config.maxSize then pure log
        else do
          let (_, log) ← log.rotate system
          pure log

/-! ## Lines -/

/-- The line goes to the buffer, which is written first if the line does not fit behind
what it has, or straight to the file.  `bytes_written` is advanced by the position that has
just been reset. -/
def writeLine (log : Logger) (line : Chars) : Logger :=
  match log.buffer with
  | some pending =>
      if 0 < log.config.bufferSize then
        let log :=
          if log.config.bufferSize < pending.length + line.length then
            { log.append pending with buffer := some [], bytesWritten := log.bytesWritten + 0 }
          else log
        if line.length < log.config.bufferSize then
          { log with buffer := log.buffer.map (· ++ line) }
        else log
      else { log.append line with bytesWritten := log.bytesWritten + line.length }
  | none => { log.append line with bytesWritten := log.bytesWritten + line.length }

/-- Put an output down if a target is enabled. -/
def output (log : Logger) (enabled : Bool) (text : Output) : Logger :=
  if enabled then { log with outputs := log.outputs ++ [text] } else log

/-- The line on `stderr`. -/
def stderrOutput (log : Logger) (system : System) (level : Level) (front msg : Chars) : Logger :=
  log.output (has log.config.targets targetStderr)
    (.stderr
      (if has log.config.flags flagColor && system.tty then
        level.color ++ front ++ msg ++ colorReset ++ ['\n']
      else front ++ msg ++ ['\n']))

/-- The line in the file. -/
def fileOutput (log : Logger) (system : System) (line : Chars) : Except Halt Logger :=
  if has log.config.targets targetFile && log.file.isSome then
    (log.writeLine line).rotateCheck system
  else pure log

/-- The message to the system log and to the handler, and the statistics. -/
def messageOutput (log : Logger) (level : Level) (site : Site) (msg : Chars) : Logger :=
  let log := log.output (has log.config.targets targetSyslog && log.syslogOpen)
    (.syslog level msg)
  let log := log.output (has log.config.targets targetCustom && log.handler)
    (.custom level site msg)
  { log with messages := update log.messages level (log.messages level + 1) }

/-- `log_output`. -/
def logOutput (log : Logger) (system : System) (level : Level) (site : Site) (msg : Chars) :
    Except Halt Logger := do
  let front ← lead log.config.flags system level site
  let log := log.stderrOutput system level front msg
  let log ← log.fileOutput system (front ++ msg ++ ['\n'])
  pure (log.messageOutput level site msg)

/-- `qd_log_enabled`. -/
def enabled (log : Logger) (level : Level) : Bool :=
  level.toNat ≤ log.config.level.toNat

/-- A line under the lock. -/
def lockedOutput (log : Logger) (system : System) (level : Level) (site : Site) (msg : Chars) :
    Except Halt Logger := do
  let log ← log.lock
  let log ← log.logOutput system level site msg
  pure log.unlock

/-- `qd_logv`, with the formatted text. -/
def logv (log : Logger) (system : System) (level : Level) (site : Site) (text : Chars) :
    Except Halt Logger :=
  if log.enabled level then log.lockedOutput system level site (text.take 4095) else pure log

/-- `qd_log`. -/
def log (log : Logger) (system : System) (level : Level) (site : Site) (text : Chars) :
    Except Halt Logger :=
  if log.enabled level then log.logv system level site text else pure log

/-- `qd_log_raw`. -/
def raw (log : Logger) (system : System) (level : Level) (msg : Chars) : Except Halt Logger :=
  if log.enabled level then log.lockedOutput system level ⟨none, 0, none⟩ msg else pure log

/-- The loop of `qd_log_hexdump` from a row on. -/
def hexRows (systems : Nat → System) (level : Level) (front : Chars) (data : List (BitVec 8)) :
    Nat → Nat → Logger → Except Halt Logger
  | 0, _, log => pure log
  | rows + 1, index, log => do
      let line ← row front data (16 * index)
      let log ← log.raw (systems index) level line
      hexRows systems level front data rows (index + 1) log

/-- `qd_log_hexdump`. -/
def hexdump (log : Logger) (systems : Nat → System) (level : Level) (front : Chars)
    (data : List (BitVec 8)) : Except Halt Logger :=
  if log.enabled level then hexRows systems level front data ((data.length + 15) / 16) 0 log
  else pure log

/-- `qd_log_ctx`, with the name and the level of its context. -/
def ctx (log : Logger) (system : System) (name : Chars) (limit level : Level) (site : Site)
    (text : Chars) : Except Halt Logger :=
  if limit.toNat < level.toNat then pure log
  else log.lockedOutput system level site ((bracketed name ++ text.take 4095).take 4199)

/-! ## Setting up and down -/

/-- `qd_log_init`. -/
def init (log : Logger) (config : Option Config) (system : System) :
    Except Halt (Int × Logger) := do
  let log ← log.lock
  if log.initialized then pure (errExist, log.unlock)
  else
    let log := { log with config := config.getD log.config }
    if 0 < log.config.bufferSize ∧ system.allocated = false then
      pure (qdErrNomem, { log with buffer := none }.unlock)
    else
      let log := if 0 < log.config.bufferSize then { log with buffer := some [] } else log
      let (code, log) :=
        if has log.config.targets targetFile then log.openFile system else (qdOk, log)
      if code ≠ qdOk then pure (qdErrIo, { log with buffer := none }.unlock)
      else
        let log := if has log.config.targets targetSyslog then { log with syslogOpen := true } else log
        pure (qdOk, { log with initialized := true }.unlock)

/-- `qd_log_shutdown`, which calls `qd_log_flush` under the lock. -/
def shutdown (log : Logger) : Except Halt Logger := do
  let log ← log.lock
  if log.initialized then
    let log ← log.flush
    pure { log with file := none, syslogOpen := false, buffer := none, initialized := false }.unlock
  else pure log.unlock

/-- A setter: a change under the lock. -/
def set (log : Logger) (change : Logger → Logger) : Except Halt Logger := do
  let log ← log.lock
  pure (change log).unlock

/-- `qd_log_set_level`. -/
def setLevel (log : Logger) (level : Level) : Except Halt Logger :=
  log.set fun log => { log with config := { log.config with level := level } }

/-- `qd_log_set_targets`. -/
def setTargets (log : Logger) (targets : BitVec 32) : Except Halt Logger :=
  log.set fun log => { log with config := { log.config with targets := targets } }

/-- `qd_log_set_flags`. -/
def setFlags (log : Logger) (flags : BitVec 32) : Except Halt Logger :=
  log.set fun log => { log with config := { log.config with flags := flags } }

/-- `qd_log_set_handler`. -/
def setHandler (log : Logger) (handler : Bool) : Except Halt Logger :=
  log.set fun log => { log with handler := handler }

end Logger

/-! ## Sequences of calls -/

/-- Public calls, with the answers of the system. -/
inductive Call
  | init (config : Option Config) (system : System)
  | shutdown
  | setLevel (level : Level)
  | setTargets (targets : BitVec 32)
  | setFlags (flags : BitVec 32)
  | setHandler (handler : Bool)
  | log (system : System) (level : Level) (site : Site) (text : Chars)
  | logv (system : System) (level : Level) (site : Site) (text : Chars)
  | raw (system : System) (level : Level) (msg : Chars)
  | hexdump (systems : Nat → System) (level : Level) (front : Chars) (data : List (BitVec 8))
  | ctx (system : System) (name : Chars) (limit level : Level) (site : Site) (text : Chars)
  | rotate (system : System)
  | reopen (system : System)
  | flush

/-- The state after a call. -/
def Call.run (log : Logger) : Call → Except Halt Logger
  | .init config system => (log.init config system).map Prod.snd
  | .shutdown => log.shutdown
  | .setLevel level => log.setLevel level
  | .setTargets targets => log.setTargets targets
  | .setFlags flags => log.setFlags flags
  | .setHandler handler => log.setHandler handler
  | .log system level site text => log.log system level site text
  | .logv system level site text => log.logv system level site text
  | .raw system level msg => log.raw system level msg
  | .hexdump systems level front data => log.hexdump systems level front data
  | .ctx system name limit level site text => log.ctx system name limit level site text
  | .rotate system => (log.rotate system).map Prod.snd
  | .reopen system => (log.reopen system).map Prod.snd
  | .flush => log.flush

/-- The logger between two calls, or a call that does not return. -/
inductive Session
  | running (log : Logger)
  | halted (why : Halt)

/-- One call. -/
def step : Step Session Call
  | .halted _, _ => none
  | .running log, call =>
      match call.run log with
      | .ok log => some (.running log)
      | .error why => some (.halted why)

end QDaemon.Log
