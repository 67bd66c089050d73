import QDaemon.Log.Core

/-!
# Buffered lines

Lines go to a buffer, and the buffer to the file.  Without rotation the file and the buffer
together should have every line, in order, and `bytes_written` should count the bytes of the
file.  A line that is not shorter than the buffer is dropped, and what goes through the buffer
is not counted.
-/

namespace QDaemon.Log

open Common Text Transition

/-- A line under the lock, as all logging calls write it, or `qd_log_flush`. -/
inductive Action
  | line (system : System) (level : Level) (site : Site) (msg : Chars)
  | flush

/-- What an action hands to the logger. -/
def Action.text (log : Logger) : Action → Except Halt Chars
  | .line system level site msg => do
      let front ← lead log.config.flags system level site
      pure (front ++ msg ++ ['\n'])
  | .flush => pure []

def Action.run (log : Logger) : Action → Except Halt Logger
  | .line system level site msg => log.lockedOutput system level site msg
  | .flush => log.flush

/-- The logger and all that has been handed to it. -/
structure Journal where
  log : Logger
  emitted : Chars

def Journal.step : Step Journal Action
  | ⟨log, emitted⟩, action =>
      match action.text log, action.run log with
      | .ok text, .ok next => some ⟨next, emitted ++ text⟩
      | _, _ => none

/-- The logger writes to the file, without rotation.  Behind what it had before, the file has
the lines up to those in the buffer, and `bytes_written` counts them. -/
structure Journal.Complete (path before : Chars) (journal : Journal) : Prop where
  file : journal.log.file = some path
  target : has journal.log.config.targets targetFile = true
  noRotation : journal.log.config.maxSize = 0
  buffered : journal.log.buffer.isSome = true → 0 < journal.log.config.bufferSize
  content : ∃ written, journal.log.files path = some (before ++ written) ∧
    written ++ journal.log.buffer.getD [] = journal.emitted ∧
    journal.log.bytesWritten = written.length

/-- A line is shorter than the buffer, and no bytes have to make way for it. -/
def Logger.Roomy (log : Logger) (text : Chars) : Prop :=
  ∀ pending, log.buffer = some pending →
    text.length < log.config.bufferSize ∧
      (pending = [] ∨ pending.length + text.length ≤ log.config.bufferSize)

/-- The branches that lose a line, or write the buffer without counting it, are not taken. -/
def Journal.Careful (journal : Journal) : Action → Prop
  | .flush => journal.log.buffer.getD [] = []
  | .line system level site msg =>
      ∀ text, (Action.line system level site msg).text journal.log = .ok text →
        journal.log.Roomy text

variable {path before text emitted : Chars} {log next : Logger} {system : System} {level : Level}
  {site : Site}

/-! ## Steps -/

theorem Journal.Complete.output (complete : Journal.Complete path before ⟨log, emitted⟩)
    (enabled : Bool) (put : Output) :
    Journal.Complete path before ⟨log.output enabled put, emitted⟩ := by
  obtain ⟨file, target, noRotation, buffered, content⟩ := complete
  rw [Logger.output]
  split_ifs <;> exact ⟨file, target, noRotation, buffered, content⟩

theorem Logger.Roomy.output (roomy : log.Roomy text) (enabled : Bool) (put : Output) :
    (log.output enabled put).Roomy text := by
  rw [Logger.output]
  split_ifs <;> exact roomy

section

variable (complete : Journal.Complete path before ⟨log, emitted⟩)
include complete

/-- A line with room for it. -/
theorem Journal.Complete.writeLine (roomy : log.Roomy text) :
    Journal.Complete path before ⟨log.writeLine text, emitted ++ text⟩ := by
  obtain ⟨config, _, _, _, _, _, buffer, _, _, _, files, _⟩ := log
  obtain ⟨rfl, target, noRotation, buffered, written, content, same, count⟩ := complete
  dsimp only at content same count
  subst same count
  cases buffer with
  | none =>
    refine ⟨rfl, target, noRotation, nofun, written ++ text, ?_⟩
    simp [Logger.writeLine, Logger.append, content]
  | some pending =>
    have used : 0 < config.bufferSize := buffered rfl
    obtain ⟨short, room⟩ := roomy pending rfl
    by_cases full : config.bufferSize < pending.length + text.length
    · obtain rfl : pending = [] := room.resolve_right (Nat.not_le.mpr full)
      simp only [Logger.writeLine, used, full, short, if_true, Logger.append]
      exact ⟨rfl, target, noRotation, buffered, written, by simp [content]⟩
    · simp only [Logger.writeLine, used, full, short, if_false]
      exact ⟨rfl, target, noRotation, buffered, written, by simp [content]⟩

theorem Journal.Complete.messageOutput (level : Level) (site : Site) (msg : Chars) :
    Journal.Complete path before ⟨log.messageOutput level site msg, emitted⟩ := by
  obtain ⟨file, target, noRotation, buffered, content⟩ := complete
  simp only [Logger.messageOutput, Logger.output]
  split_ifs <;> exact ⟨file, target, noRotation, buffered, content⟩

/-- Under the lock, a line with room for it. -/
theorem Journal.Complete.logOutput {front msg : Chars}
    (printed : lead log.config.flags system level site = .ok front)
    (roomy : log.Roomy (front ++ msg ++ ['\n']))
    (returned : log.logOutput system level site msg = .ok next) :
    Journal.Complete path before ⟨next, emitted ++ (front ++ msg ++ ['\n'])⟩ := by
  have shown : Journal.Complete path before ⟨log.stderrOutput system level front msg, emitted⟩ :=
    complete.output _ _
  have line := shown.writeLine (roomy.output _ _)
  rw [Logger.logOutput, printed] at returned
  change (Logger.fileOutput _ system _ >>= _) = _ at returned
  rw [Logger.fileOutput, if_pos (by rw [shown.target, shown.file]; rfl), Logger.rotateCheck,
    if_pos (.inr line.noRotation)] at returned
  cases returned
  exact line.messageOutput level site msg

/-- With nothing in the buffer a flush does nothing. -/
theorem Journal.Complete.flush (empty : log.buffer.getD [] = []) (returned : log.flush = .ok next) :
    Journal.Complete path before ⟨next, emitted⟩ := by
  rw [Logger.flush, Logger.lock] at returned
  split_ifs at returned
  · cases returned
  · obtain ⟨_, _, _, _, _, _, buffer, _, _, _, _, _⟩ := log
    obtain ⟨file, target, noRotation, buffered, content⟩ := complete
    rcases buffer with _ | _ | ⟨first, rest⟩
    · cases returned
      exact ⟨file, target, noRotation, buffered, content⟩
    · cases returned
      exact ⟨file, target, noRotation, buffered, content⟩
    · cases empty

end

theorem Journal.Complete.step {journal after : Journal} {action : Action}
    (complete : journal.Complete path before) (careful : journal.Careful action)
    (stepEq : journal.step action = some after) : after.Complete path before := by
  obtain ⟨log, emitted⟩ := journal
  rw [Journal.step] at stepEq
  split at stepEq <;> cases stepEq
  next text next given returned =>
    cases action with
    | flush =>
      cases given
      rw [List.append_nil]
      exact complete.flush careful returned
    | line system level site msg =>
      have roomy := careful text given
      rw [Action.text] at given
      cases printed : lead log.config.flags system level site with
      | error why =>
        rw [printed] at given
        cases given
      | ok front =>
        rw [printed] at given
        cases given
        rw [Action.run, Logger.lockedOutput, Logger.lock] at returned
        split_ifs at returned
        · cases returned
        · have locked : Journal.Complete path before ⟨{ log with held := true }, emitted⟩ :=
            ⟨complete.file, complete.target, complete.noRotation, complete.buffered,
              complete.content⟩
          change (Logger.logOutput { log with held := true } system level site msg >>= _) = _
            at returned
          cases done : Logger.logOutput { log with held := true } system level site msg with
          | error why =>
            rw [done] at returned
            cases returned
          | ok last =>
            rw [done] at returned
            cases returned
            obtain ⟨file, target, noRotation, buffered, content⟩ :=
              locked.logOutput printed roomy done
            exact ⟨file, target, noRotation, buffered, content⟩

/-! ## Runs -/

theorem complete_init {files : Chars → Option Chars} {config : Config} {start : Logger}
    (created : (Logger.initial files).init (some config) system = .ok (qdOk, start))
    (target : has config.targets targetFile = true) (isPath : config.filePath = some path)
    (noRotation : config.maxSize = 0) :
    Journal.Complete path ((files path).getD []) ⟨start, []⟩ := by
  by_cases sized : 0 < config.bufferSize <;> cases allocated : system.allocated <;>
    cases opened : system.opened <;>
    simp [Logger.init, Logger.lock, Logger.initial, Logger.openFile, bind, Except.bind, pure,
      Except.pure, sized, allocated, opened, isPath, target, qdOk, qdErrIo, qdErrNomem] at created
  all_goals
    subst created
    refine ⟨?_, ?_, ?_, ?_, [], ?_⟩ <;> split_ifs <;>
      simp [Logger.unlock, target, noRotation, sized]

/-- From every successful `qd_log_init` with the file target and without rotation on: as long as
no line is dropped and no buffered bytes are written, the file and the buffer have all lines in
order and the bytes of the file are counted. -/
theorem buffering_complete {files : Chars → Option Chars} {config : Config} {start : Logger}
    {journal : Journal}
    (created : (Logger.initial files).init (some config) system = .ok (qdOk, start))
    (target : has config.targets targetFile = true) (isPath : config.filePath = some path)
    (noRotation : config.maxSize = 0)
    (run : GuardedRun Journal.step Journal.Careful ⟨start, []⟩ journal) :
    journal.Complete path ((files path).getD []) :=
  run.invariant (Journal.Complete path _) (complete_init created target isPath noRotation)
    fun _ _ _ complete careful stepEq => complete.step careful stepEq

/-- Lines without a lead to a new file, through eight bytes of buffer. -/
def smallBuffer : Config :=
  { Config.default with
    targets := targetFile, flags := 0, filePath := some ['l'], maxSize := 0, bufferSize := 8 }

/-- A system on which everything works. -/
def workingSystem : System :=
  ⟨true, true, none, false, [], 1, 1⟩

/-- The logger after `qd_log_init` with this configuration. -/
def smallBuffered : Logger :=
  { Logger.initial (Function.update (fun _ => none) ['l'] (some [])) with
    config := smallBuffer, file := some ['l'], initialized := true, buffer := some [] }

/-- A line to it. -/
def lineOf (msg : String) : Action :=
  .line workingSystem .info ⟨none, 0, none⟩ msg.toList

theorem buffering_complete_shortLine :
    ∃ journal : Journal, GuardedRun Journal.step Journal.Careful ⟨smallBuffered, []⟩ journal ∧
      journal.emitted = "ab\n".toList ∧ journal.Complete ['l'] [] := by
  have created : (Logger.initial fun _ => none).init (some smallBuffer) workingSystem =
      .ok (qdOk, smallBuffered) := rfl
  have careful : Journal.Careful ⟨smallBuffered, []⟩ (lineOf "ab") := by
    rintro text given pending buffer
    cases given
    cases buffer
    exact ⟨by decide, .inl rfl⟩
  have run : GuardedRun Journal.step Journal.Careful ⟨smallBuffered, []⟩ _ :=
    GuardedRun.refl.tail careful rfl
  exact ⟨_, run, rfl, buffering_complete created rfl rfl rfl run⟩

/-- A line of nine bytes is lost, and so is the count of the bytes that a flush writes. -/
theorem line_lost_bytes_uncounted :
    (exec Journal.step ⟨smallBuffered, []⟩ [lineOf "12345678"]).map (fun journal =>
        (journal.log.files ['l'], journal.log.buffer, journal.emitted)) =
      some (some [], some [], "12345678\n".toList) ∧
    (exec Journal.step ⟨smallBuffered, []⟩ [lineOf "ab", .flush]).map (fun journal =>
        (journal.log.files ['l'], journal.log.bytesWritten)) =
      some (some "ab\n".toList, 0) := by
  decide +kernel

end QDaemon.Log
