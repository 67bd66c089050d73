import QDaemon.Log.Bounds
import QDaemon.Log.Core

/-!
# The lock of the logger

Two calls take the lock while they hold it: `qd_log_shutdown` of an initialised logger, which
flushes, and a line that brings the file to its size limit, which rotates.  All other
calls return with the lock released.
-/

namespace QDaemon.Log

open Text Transition

variable {system : System} {level : Level}

/-! ## Lines -/

/-- The call leaves the lock, the configuration and the stream as they are. -/
structure Kept (log next : Logger) : Prop where
  held : next.held = log.held
  config : next.config = log.config
  file : next.file = log.file

theorem Kept.refl (log : Logger) : Kept log log := ⟨rfl, rfl, rfl⟩

theorem Kept.trans {first second third : Logger} (left : Kept first second)
    (right : Kept second third) : Kept first third :=
  ⟨right.held.trans left.held, right.config.trans left.config, right.file.trans left.file⟩

theorem append_kept (log : Logger) (text : Chars) : Kept log (log.append text) := by
  rw [Logger.append]
  split
  · exact .refl log
  · exact ⟨rfl, rfl, rfl⟩

theorem output_kept (log : Logger) (enabled : Bool) (text : Output) :
    Kept log (log.output enabled text) := by
  rw [Logger.output]
  split_ifs
  · exact ⟨rfl, rfl, rfl⟩
  · exact .refl log

theorem writeLine_kept (log : Logger) (line : Chars) : Kept log (log.writeLine line) := by
  have straight : Kept log
      { log.append line with bytesWritten := log.bytesWritten + line.length } :=
    (append_kept log line).trans ⟨rfl, rfl, rfl⟩
  rw [Logger.writeLine]
  split
  next pending _ =>
    have flushed : Kept log
        { log.append pending with buffer := some [], bytesWritten := log.bytesWritten + 0 } :=
      (append_kept log pending).trans ⟨rfl, rfl, rfl⟩
    dsimp only
    split_ifs
    · exact flushed.trans ⟨rfl, rfl, rfl⟩
    · exact flushed
    · exact ⟨rfl, rfl, rfl⟩
    · exact .refl log
    · exact straight
  · exact straight

/-- A line that is written to the file finds it at its size limit. -/
def Logger.Rotates (log : Logger) (system : System) : Prop :=
  has log.config.targets targetFile = true ∧ log.file ≠ none ∧ log.config.maxSize ≠ 0 ∧
    ∃ size, system.size = some size ∧ log.config.maxSize ≤ size

variable {log : Logger}

theorem Kept.rotates {next : Logger} (kept : Kept log next) (system : System) :
    next.Rotates system ↔ log.Rotates system := by
  rw [Logger.Rotates, Logger.Rotates, kept.config, kept.file]

/-- The outcome of a call that does not touch the lock twice. -/
def Returns (log : Logger) (result : Except Halt Logger) : Prop :=
  result = .error .overrun ∨ ∃ next, result = .ok next ∧ Kept log next

theorem rotateCheck_of_not_rotates (target : has log.config.targets targetFile = true)
    (quiet : ¬log.Rotates system) : log.rotateCheck system = .ok log := by
  rw [Logger.rotateCheck]
  split_ifs with skipped
  · rfl
  · rw [not_or] at skipped
    cases reported : system.size with
    | none => rfl
    | some size =>
      by_cases below : size < log.config.maxSize
      · exact if_pos below
      · exact absurd ⟨target, skipped.1, skipped.2, size, reported, Nat.le_of_not_lt below⟩ quiet

theorem messageOutput_kept (log : Logger) (level : Level) (site : Site) (msg : Chars) :
    Kept log (log.messageOutput level site msg) := by
  have syslog := output_kept log (has log.config.targets targetSyslog && log.syslogOpen)
    (.syslog level msg)
  exact (syslog.trans (output_kept _ _ (.custom level site msg))).trans ⟨rfl, rfl, rfl⟩

theorem fileOutput_of_not_rotates (quiet : ¬log.Rotates system) (line : Chars) :
    ∃ next, log.fileOutput system line = .ok next ∧ Kept log next := by
  rw [Logger.fileOutput]
  split_ifs with written
  · have kept := writeLine_kept log line
    rw [Bool.and_eq_true] at written
    refine ⟨_, rotateCheck_of_not_rotates ?_ ((kept.rotates system).not.mpr quiet), kept⟩
    rw [kept.config]
    exact written.1
  · exact ⟨log, rfl, .refl log⟩

theorem fileOutput_of_rotates (held : log.held = true) (rotates : log.Rotates system)
    (line : Chars) : log.fileOutput system line = .error .deadlock := by
  have kept := writeLine_kept log line
  obtain ⟨target, opened, limited, size, reported, reached⟩ := (kept.rotates system).mpr rotates
  have written : (has log.config.targets targetFile && log.file.isSome) = true := by
    rw [Bool.and_eq_true]
    exact ⟨rotates.1, Option.isSome_iff_ne_none.mpr rotates.2.1⟩
  rw [Logger.fileOutput, if_pos written, Logger.rotateCheck,
    if_neg (by rw [not_or]; exact ⟨opened, limited⟩), reported]
  dsimp only
  rw [if_neg (Nat.not_lt.mpr reached), Logger.rotate, Logger.lock, if_pos (kept.held.trans held)]
  rfl

/-- A call that is quiet returns, and one that is not does not. -/
def Answers (log : Logger) (quiet : Prop) (result : Except Halt Logger) : Prop :=
  (quiet ∧ Returns log result) ∨ (¬quiet ∧ ∃ why, result = .error why)

theorem answers_overrun (log : Logger) (quiet : Prop) : Answers log quiet (.error .overrun) := by
  by_cases isQuiet : quiet
  · exact .inl ⟨isQuiet, .inl rfl⟩
  · exact .inr ⟨isQuiet, .overrun, rfl⟩

/-- Under the lock, a line that rotates waits for the lock that its call holds. -/
theorem logOutput_answers (held : log.held = true) (system : System) (level : Level) (site : Site)
    (msg : Chars) : Answers log (¬log.Rotates system) (log.logOutput system level site msg) := by
  rw [Logger.logOutput]
  rcases lead_cases log.config.flags system level site with ⟨failed, -⟩ | ⟨front, printed, -⟩
  · rw [failed]
    exact answers_overrun log _
  · rw [printed]
    have shown : Kept log (log.stderrOutput system level front msg) := output_kept _ _ _
    change Answers log _ ((log.stderrOutput system level front msg).fileOutput system _ >>= _)
    by_cases rotates : log.Rotates system
    · rw [fileOutput_of_rotates (shown.held.trans held) ((shown.rotates system).mpr rotates)]
      exact .inr ⟨not_not.mpr rotates, .deadlock, rfl⟩
    · obtain ⟨next, written, kept⟩ := fileOutput_of_not_rotates
        ((shown.rotates system).not.mpr rotates) (front ++ msg ++ ['\n'])
      rw [written]
      exact .inl ⟨rotates, .inr ⟨_, rfl, (shown.trans kept).trans (messageOutput_kept _ _ _ _)⟩⟩

/-! ## Calls that log -/

theorem lock_of_free (free : log.held = false) : log.lock = .ok { log with held := true } := by
  rw [Logger.lock, if_neg (by simp [free])]

theorem lockedOutput_answers (free : log.held = false) (system : System) (level : Level)
    (site : Site) (msg : Chars) :
    Answers log (¬log.Rotates system) (log.lockedOutput system level site msg) := by
  have output : Answers { log with held := true } (¬log.Rotates system)
      (Logger.logOutput { log with held := true } system level site msg) :=
    logOutput_answers rfl system level site msg
  rw [Logger.lockedOutput, lock_of_free free]
  change Answers log _ (Logger.logOutput { log with held := true } system level site msg >>= _)
  rcases output with ⟨quiet, failed | ⟨next, done, kept⟩⟩ | ⟨rotates, why, failed⟩
  · rw [failed]
    exact .inl ⟨quiet, .inl rfl⟩
  · rw [done]
    exact .inl ⟨quiet, .inr ⟨next.unlock, rfl, free.symm, kept.config, kept.file⟩⟩
  · rw [failed]
    exact .inr ⟨rotates, why, rfl⟩

/-- A call that does nothing unless a condition holds. -/
theorem Answers.when {enabled quiet : Prop} [Decidable enabled] {result : Except Halt Logger}
    (answers : enabled → Answers log quiet result) :
    Answers log (enabled → quiet) (if enabled then result else pure log) := by
  split_ifs with isEnabled
  · rcases answers isEnabled with ⟨isQuiet, returns⟩ | ⟨loud, halts⟩
    · exact .inl ⟨fun _ => isQuiet, returns⟩
    · exact .inr ⟨fun all => loud (all isEnabled), halts⟩
  · exact .inl ⟨fun yes => absurd yes isEnabled, .inr ⟨log, rfl, .refl log⟩⟩

theorem logv_answers (free : log.held = false) (system : System) (level : Level) (site : Site)
    (text : Chars) : Answers log (log.enabled level = true → ¬log.Rotates system)
      (log.logv system level site text) :=
  .when fun _ => lockedOutput_answers free system level site _

theorem raw_answers (free : log.held = false) (system : System) (level : Level) (msg : Chars) :
    Answers log (log.enabled level = true → ¬log.Rotates system) (log.raw system level msg) :=
  .when fun _ => lockedOutput_answers free system level _ msg

/-- The rows of a hex dump one after the other; each leaves what the next one needs, and one that
rotates ends the dump. -/
theorem hexRows_answers {systems : Nat → System} (front : Chars) (data : List (BitVec 8))
    {rows index : Nat} (free : log.held = false) (enabled : log.enabled level = true) :
    Answers log (∀ row < rows, ¬log.Rotates (systems (row + index)))
      (Logger.hexRows systems level front data rows index log) := by
  induction rows generalizing index log with
  | zero => exact .inl ⟨nofun, .inr ⟨log, rfl, .refl log⟩⟩
  | succ rows ih =>
    rw [Logger.hexRows, Nat.forall_lt_succ_left, Nat.zero_add]
    rcases row_cases front data (16 * index) with ⟨failed, -⟩ | ⟨line, printed, -⟩
    · rw [failed]
      exact answers_overrun log _
    · rw [printed]
      change Answers log _ (log.raw (systems index) level line >>= _)
      rcases raw_answers free (systems index) level line with
        ⟨quiet, failed | ⟨next, done, kept⟩⟩ | ⟨loud, why, failed⟩
      · rw [failed]
        exact answers_overrun log _
      · rw [done]
        have rest := @ih next (index + 1) (kept.held.trans free)
          (by rwa [Logger.enabled, kept.config])
        simp only [kept.rotates, ← Nat.add_assoc, Nat.add_right_comm _ index 1] at rest
        rcases rest with ⟨later, failed | ⟨last, finished, lastKept⟩⟩ | ⟨loud, halts⟩
        · exact .inl ⟨⟨quiet enabled, later⟩, .inl failed⟩
        · exact .inl ⟨⟨quiet enabled, later⟩, .inr ⟨last, finished, kept.trans lastKept⟩⟩
        · exact .inr ⟨fun all => loud all.2, halts⟩
      · rw [failed]
        exact .inr ⟨fun all => loud fun _ => all.1, why, rfl⟩

/-! ## All calls -/

/-- A call that does not shut an initialised logger down and does not log a line that finds
the file at its size limit. -/
def Careful (log : Logger) : Call → Prop
  | .shutdown => log.initialized = false
  | .log system level _ _ => log.enabled level = true → ¬log.Rotates system
  | .logv system level _ _ => log.enabled level = true → ¬log.Rotates system
  | .raw system level _ => log.enabled level = true → ¬log.Rotates system
  | .hexdump systems level _ data =>
      log.enabled level = true → ∀ row < (data.length + 15) / 16, ¬log.Rotates (systems row)
  | .ctx system _ limit level _ _ => level.toNat ≤ limit.toNat → ¬log.Rotates system
  | _ => True

/-- The call returns with the lock released, or it writes outside of an array. -/
def Released (result : Except Halt Logger) : Prop :=
  result = .error .overrun ∨ ∃ next, result = .ok next ∧ next.held = false

theorem Returns.released {result : Except Halt Logger} (returns : Returns log result)
    (free : log.held = false) : Released result := by
  rcases returns with failed | ⟨next, done, kept⟩
  · exact .inl failed
  · exact .inr ⟨next, done, kept.held.trans free⟩

/-- A careful call returns with the lock released, and any other call does not return. -/
theorem run_outcome (free : log.held = false) (call : Call) :
    (Careful log call ∧ Released (call.run log)) ∨
      (¬Careful log call ∧ ∃ why, call.run log = .error why) := by
  have answered {quiet : Prop} {result : Except Halt Logger} (answers : Answers log quiet result) :
      (quiet ∧ Released result) ∨ (¬quiet ∧ ∃ why, result = .error why) :=
    answers.imp_left fun ⟨isQuiet, returns⟩ => ⟨isQuiet, returns.released free⟩
  cases call with
  | init config system =>
    refine .inl ⟨trivial, ?_⟩
    rw [Call.run, Logger.init, lock_of_free free]
    dsimp only [bind, Except.bind, pure]
    split_ifs <;> exact .inr ⟨_, rfl, rfl⟩
  | shutdown =>
    rw [Call.run, Logger.shutdown, lock_of_free free]
    dsimp only [bind, Except.bind, pure]
    split_ifs with up
    · exact .inr ⟨by simp [Careful, up], .deadlock, rfl⟩
    · exact .inl ⟨Bool.eq_false_of_not_eq_true up, .inr ⟨_, rfl, rfl⟩⟩
  | setLevel | setTargets | setFlags | setHandler =>
    refine .inl ⟨trivial, ?_⟩
    show Released (log.set _)
    rw [Logger.set, lock_of_free free]
    exact .inr ⟨_, rfl, rfl⟩
  | log system level site text =>
    refine answered (.when fun enabled => ?_)
    rw [Logger.logv, if_pos enabled]
    exact lockedOutput_answers free system level site _
  | logv system level site text => exact answered (logv_answers free system level site text)
  | raw system level msg => exact answered (raw_answers free system level msg)
  | hexdump systems level front data =>
    refine answered (.when fun enabled => ?_)
    exact @hexRows_answers _ log systems front data _ 0 free enabled
  | ctx system name limit level site text =>
    simp only [Call.run, Logger.ctx, ← Nat.not_le, ite_not]
    exact answered (.when fun _ => lockedOutput_answers free system level site _)
  | rotate system =>
    refine .inl ⟨trivial, ?_⟩
    rw [Call.run, Logger.rotate, lock_of_free free]
    dsimp only [bind, Except.bind, pure]
    split <;> exact .inr ⟨_, rfl, rfl⟩
  | reopen system =>
    refine .inl ⟨trivial, ?_⟩
    rw [Call.run, Logger.reopen, lock_of_free free]
    exact .inr ⟨_, rfl, rfl⟩
  | flush =>
    refine .inl ⟨trivial, ?_⟩
    rw [Call.run, Logger.flush, lock_of_free free]
    dsimp only [bind, Except.bind, pure]
    split <;> exact .inr ⟨_, rfl, rfl⟩

/-! ## Sequences of calls -/

/-- The condition on the calls of a run. -/
def Session.Careful : Session → Call → Prop
  | .running log, call => Log.Careful log call
  | .halted _, _ => True

/-- Between two calls the lock is free, and no call is stuck in it. -/
def Session.Free : Session → Prop
  | .running log => log.held = false
  | .halted why => why = .overrun

theorem step_free (session : Session) (call : Call) (next : Session) (free : session.Free)
    (careful : session.Careful call) (stepEq : step session call = some next) : next.Free := by
  cases session with
  | halted why => cases stepEq
  | running log =>
    rw [step] at stepEq
    rcases run_outcome free call with ⟨-, failed | ⟨after, done, released⟩⟩ | ⟨careless, -⟩
    · rw [failed] at stepEq
      cases stepEq
      rfl
    · rw [done] at stepEq
      cases stepEq
      exact released
    · exact absurd careful careless

/-- A system whose files can be opened and have the given size. -/
def systemWith (size : Nat) : System :=
  ⟨true, true, some size, false, [], 1, 1⟩

/-- Lines to a file without a lead, at most a hundred bytes. -/
def smallFile : Config :=
  { Config.default with
    targets := targetFile, flags := 0, filePath := some ['l'], maxSize := 100, bufferSize := 0 }

/-- The logger after `qd_log_init` with this configuration. -/
def smallLogger : Logger :=
  { Logger.initial (Function.update (fun _ => none) ['l'] (some [])) with
    config := smallFile, file := some ['l'], initialized := true }

end QDaemon.Log
