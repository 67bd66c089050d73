import QDaemon.Log.Core

/-!
# Rotation of the log file

`qd_log_rotate` renames the oldest generation first, so that each one finds its new name
free.  The names are made in arrays of `PATH_MAX` bytes: where a name does not fit, what is
left of it may be the name of another generation.
-/

namespace QDaemon.Log

open Function Common Text

/-- The name of a generation, the first of which is the file that is written to. -/
def numbered (path : Chars) : Nat → Chars
  | 0 => path
  | number + 1 => path ++ '.' :: Nat.toDigits 10 (number + 1)

/-- Every generation but the last has moved on, there is an empty file to write to, and the
other files are as they were. -/
structure Rotated (path : Chars) (maxFiles : Nat) (before after : Chars → Option Chars) : Prop where
  shifted : ∀ number < maxFiles,
    after (numbered path (number + 1)) = before (numbered path number)
  active : after path = some []
  others : ∀ name, (∀ number ≤ maxFiles, name ≠ numbered path number) → after name = before name

/-- So it is after the rotation of an open file, whatever files there are. -/
def RotatesFiles (path : Chars) (maxFiles : Nat) : Prop :=
  ∀ (log : Logger) (system : System), log.held = false → log.file.isSome = true →
    log.config.filePath = some path → log.config.maxFiles = maxFiles → system.opened = true →
    ∃ after, log.rotate system = .ok (qdOk, after) ∧ Rotated path maxFiles log.files after.files

namespace Logger

variable {log : Logger} {path old new name : Chars} {names : Nat → Chars} {number count : Nat}

/-! ## Renaming -/

theorem rename_frame (notOld : name ≠ old) (notNew : name ≠ new) :
    (log.rename old new).files name = log.files name := by
  unfold rename
  split
  · rfl
  · split
    · rfl
    · exact (update_of_ne notOld _ _).trans (update_of_ne notNew _ _)

theorem rename_files (different : old ≠ new) (free : log.files new = none) :
    (log.rename old new).files = update (update log.files new (log.files old)) old none := by
  unfold rename
  split
  next absent =>
    have same : update log.files new none = log.files := update_eq_self_iff.mpr free.symm
    rw [absent, same, update_eq_self_iff.mpr absent.symm]
  next content present => rw [if_neg different, present]

/-- A chain of names, each renamed to the next one, from its end on. -/
def advance (names : Nat → Chars) : Nat → Logger → Logger
  | 0, log => log
  | count + 1, log => advance names count (log.rename (names count) (names (count + 1)))

theorem advance_config : (advance names count log).config = log.config := by
  induction count generalizing log with
  | zero => rfl
  | succ count ih =>
    rw [advance, ih, rename]
    split
    · rfl
    · split <;> rfl

theorem advance_frame (other : ∀ number ≤ count, name ≠ names number) :
    (advance names count log).files name = log.files name := by
  induction count generalizing log with
  | zero => rfl
  | succ count ih =>
    rw [advance, ih fun number le => other number (Nat.le_succ_of_le le)]
    exact rename_frame (other _ (Nat.le_succ _)) (other _ le_rfl)

/-- Each name is free when it is taken. -/
theorem advance_files
    (distinct : ∀ number ≤ count, ∀ other ≤ count, names number = names other → number = other)
    (free : log.files (names count) = none) : (advance names count log).files (names 0) = none ∧
      ∀ number < count,
        (advance names count log).files (names (number + 1)) = log.files (names number) := by
  induction count generalizing log with
  | zero => exact ⟨free, fun number less => absurd less (Nat.not_lt_zero _)⟩
  | succ count ih =>
    have ne {number other : Nat} (le : number ≤ count + 1) (otherLe : other ≤ count + 1)
        (differ : number ≠ other) : names number ≠ names other :=
      fun same => differ (distinct number le other otherLe same)
    have renamed := rename_files (ne (Nat.le_succ count) le_rfl (by omega)) free
    obtain ⟨firstFree, moved⟩ := ih (fun number le other otherLe =>
        distinct number (by omega) other (by omega)) (by rw [renamed, update_self])
    refine ⟨firstFree, fun number less => ?_⟩
    rw [advance]
    rcases Nat.lt_or_eq_of_le (Nat.le_of_lt_succ less) with earlier | rfl
    · rw [moved number earlier, renamed, update_of_ne (ne (by omega) (by omega) (by omega)),
        update_of_ne (ne (by omega) le_rfl (by omega))]
    · rw [advance_frame fun other otherLe => ne le_rfl (by omega) (by omega), renamed,
        update_of_ne (ne le_rfl (by omega) (by omega)), update_self]

/-! ## Generations -/

/-- The names that `qd_log_rotate` uses. -/
def cut (path : Chars) : Nat → Chars
  | 0 => path
  | number + 1 => generation path (number + 1)

theorem advance_cut : advance (cut path) (count + 1) log =
    (shift path count log).rename path (generation path 1) := by
  induction count generalizing log with
  | zero => rfl
  | succ count ih => exact ih

theorem numbered_inj {other : Nat} (same : numbered path number = numbered path other) :
    number = other := by
  rcases number with _ | number <;> rcases other with _ | other
  · rfl
  · exact absurd (congrArg List.length same) (by simp [numbered])
  · exact absurd (congrArg List.length same) (by simp [numbered])
  · have digits := (List.cons.inj (List.append_cancel_left same)).2
    rw [← @Nat.ofDigitChars_ten_toDigits (number + 1), digits, Nat.ofDigitChars_ten_toDigits]

theorem cut_eq (fits : (numbered path (count + 1)).length ≤ 4095) (le : number ≤ count + 1) :
    cut path number = numbered path number := by
  cases number with
  | zero => rfl
  | succ number =>
    apply List.take_of_length_le
    have positive := @Nat.length_toDigits_pos 10 (count + 1)
    have shorter : (Nat.toDigits 10 (number + 1)).length ≤ (Nat.toDigits 10 (count + 1)).length :=
      (Nat.length_toDigits_le_iff (by decide) positive).mpr
        (le.trans_lt ((Nat.length_toDigits_le_iff (by decide) positive).mp le_rfl))
    simp only [numbered, List.length_append, List.length_cons] at fits ⊢
    omega

/-! ## Rotation -/

/-- The files when the log file is opened again. -/
def moved (log : Logger) (path : Chars) (count : Nat) : Logger :=
  advance (cut path) (count + 1)
    ({ log with held := true, file := none }.unlink (generation path (count + 1)))

variable {system : System}

theorem rotate_eq (free : log.held = false) (opened : log.file.isSome = true)
    (pathEq : log.config.filePath = some path) (filesEq : log.config.maxFiles = (count + 1 : Nat))
    (reopened : system.opened = true) :
    ∃ after, log.rotate system = .ok (qdOk, after) ∧ after.files =
      update (log.moved path count).files path (some (((log.moved path count).files path).getD [])) := by
  obtain ⟨stream, streamEq⟩ := Option.isSome_iff_exists.mp opened
  have maxFiles : (if log.config.maxFiles ≤ 0 then 5 else log.config.maxFiles.toNat) = count + 1 := by
    rw [if_neg (by omega)]
    omega
  have rotated : log.rotate system = .ok (((log.moved path count).openFile system).1,
      unlock { ((log.moved path count).openFile system).2 with
        rotations := ((log.moved path count).openFile system).2.rotations + 1 }) := by
    rw [moved, advance_cut]
    simp only [rotate, lock, free, Bool.false_eq_true, if_false, bind, Except.bind]
    simp only [streamEq, pathEq, maxFiles]
    rfl
  have config : (log.moved path count).config.filePath = some path := by
    rw [moved, advance_config]
    exact pathEq
  rw [openFile, config] at rotated
  simp only [reopened, if_true] at rotated
  exact ⟨_, rotated, rfl⟩

theorem moved_frame (other : ∀ number ≤ count + 1, name ≠ cut path number) :
    (log.moved path count).files name = log.files name := by
  rw [moved, advance_frame other]
  exact update_of_ne (other (count + 1) le_rfl) _ _

theorem rotates_of_fits (fits : (numbered path (count + 1)).length ≤ 4095) :
    RotatesFiles path (count + 1) := by
  intro log system free opened pathEq filesEq reopened
  obtain ⟨after, rotateEq, afterEq⟩ := rotate_eq free opened pathEq filesEq reopened
  refine ⟨after, rotateEq, ?_⟩
  have distinct : ∀ number ≤ count + 1, ∀ other ≤ count + 1, cut path number = cut path other →
      number = other := by
    intro number le other otherLe same
    rw [cut_eq fits le, cut_eq fits otherLe] at same
    exact numbered_inj same
  obtain ⟨firstFree, shifted⟩ : (log.moved path count).files path = none ∧ _ :=
    advance_files distinct (update_self _ _ _)
  refine ⟨fun number less => ?_, ?_, fun name other => ?_⟩
  · have notPath : numbered path (number + 1) ≠ path := fun same =>
      absurd (@numbered_inj path (number + 1) 0 same) (Nat.succ_ne_zero number)
    rw [afterEq, update_of_ne notPath, ← cut_eq fits less, ← cut_eq fits (Nat.le_of_lt less)]
    refine (shifted number less).trans (update_of_ne ?_ _ _)
    intro same
    exact absurd (distinct number (by omega) (count + 1) le_rfl same) (Nat.ne_of_lt less)
  · rw [afterEq, update_self, firstFree]
    rfl
  · rw [afterEq, update_of_ne (by exact other 0 (Nat.zero_le _))]
    exact moved_frame fun number le => cut_eq fits le ▸ other number le

/-- A logger with an open file. -/
def opened (files : Chars → Option Chars) (path : Chars) (maxFiles : Nat) : Logger :=
  { Logger.initial files with
    file := some path
    config := { Config.default with filePath := some path, maxFiles := maxFiles } }

/-- A name that does not fit is not given to any file. -/
theorem not_rotates (long : 4095 < (numbered path (count + 1)).length) :
    ¬ RotatesFiles path (count + 1) := by
  intro rotates
  have unused (number : Nat) : numbered path (count + 1) ≠ cut path number := by
    intro same
    cases number with
    | zero => exact absurd (@numbered_inj path (count + 1) 0 same) (Nat.succ_ne_zero count)
    | succ number =>
      rw [same] at long
      exact absurd long (Nat.not_lt.mpr (List.length_take_le _ _))
  have others : numbered path count ≠ numbered path (count + 1) := fun same =>
    absurd (numbered_inj same) (Nat.ne_of_lt (Nat.lt_succ_self count))
  have pathEq : (opened (fun name => if name = numbered path (count + 1) then none else some [])
    path (count + 1)).config.filePath = some path := rfl
  have reopened : System.opened ⟨true, true, none, false, [], 0, 0⟩ = true := rfl
  obtain ⟨after, rotateEq, rotated⟩ := rotates _ _ rfl rfl pathEq rfl reopened
  obtain ⟨_, otherEq, files⟩ := rotate_eq rfl rfl pathEq rfl reopened
  cases rotateEq.symm.trans otherEq
  have moved := rotated.shifted count (Nat.lt_succ_self count)
  rw [files, update_of_ne (by exact unused 0), moved_frame fun number _ => unused number] at moved
  simp [opened, Logger.initial, others] at moved

end Logger

end QDaemon.Log
