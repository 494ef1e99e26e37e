import Mathlib.Logic.Function.Basic
import Mathlib.Data.List.Basic

/-! # The logger

`Logger` of `logging.h` and `logging.cpp`, one call at a time. The singleton keeps its four
fields; what it writes is kept as the records on `std::cout`, on `std::cerr` and in each file, one
record per string written with `std::endl`. The clock is the argument `now` of a logging call (the
`tm` that `localtime_r` fills, and the milliseconds since the epoch), and whether the system opens
a file is the argument `opened` of `setOutputFile`. Files are named by the file a path resolves
to, so that two spellings of one path write to one file. -/

namespace Classifier

/-- `enum class LogLevel`. Its underlying type is `int`, and a `static_cast` makes any `int` a
value of it: `NONE = 0` to `TRACE = 5` are its enumerators, not all its values. -/
structure LogLevel where
  val : Int
  deriving DecidableEq, Repr

namespace LogLevel

def none : LogLevel := ⟨0⟩
def error : LogLevel := ⟨1⟩
def warning : LogLevel := ⟨2⟩
def info : LogLevel := ⟨3⟩
def debug : LogLevel := ⟨4⟩
def trace : LogLevel := ⟨5⟩

/-- Scoped enumerations compare by their underlying values, as `log` and `SHOULD_LOG` do. -/
instance : LT LogLevel := ⟨fun a b => a.val < b.val⟩

instance : LE LogLevel := ⟨fun a b => a.val ≤ b.val⟩

instance (a b : LogLevel) : Decidable (a < b) := inferInstanceAs (Decidable (a.val < b.val))

instance (a b : LogLevel) : Decidable (a ≤ b) := inferInstanceAs (Decidable (a.val ≤ b.val))

end LogLevel

/-- `levelToString`: the enumerator's name, and `UNKNOWN` for any other value. -/
def levelToString (level : LogLevel) : String :=
  match level.val with
  | 0 => "NONE"
  | 1 => "ERROR"
  | 2 => "WARNING"
  | 3 => "INFO"
  | 4 => "DEBUG"
  | 5 => "TRACE"
  | _ => "UNKNOWN"

/-! ## Records -/

/-- The fields of `tm` that `std::put_time` prints. -/
structure Tm where
  tmYear : Nat
  tmMon : Nat
  tmMday : Nat
  tmHour : Nat
  tmMin : Nat
  tmSec : Nat
  deriving DecidableEq, Repr

/-- A reading of `std::chrono::system_clock::now()`: the local time `localtime_r` gives for it,
and its milliseconds since the epoch. -/
structure Now where
  timeinfo : Tm
  sinceEpochMs : Nat
  deriving DecidableEq, Repr

/-- `std::setfill('0') << std::setw(width) << n`. -/
def zeroPadded (width n : Nat) : String :=
  ⟨List.replicate (width - (toString n).length) '0'⟩ ++ toString n

/-- `std::put_time(&timeinfo, "%Y-%m-%d %H:%M:%S")`. -/
def putTime (tm : Tm) : String :=
  toString (tm.tmYear + 1900) ++ "-" ++ zeroPadded 2 (tm.tmMon + 1) ++ "-" ++
    zeroPadded 2 tm.tmMday ++ " " ++ zeroPadded 2 tm.tmHour ++ ":" ++ zeroPadded 2 tm.tmMin ++
    ":" ++ zeroPadded 2 tm.tmSec

/-- `getCurrentTimestamp`: the local time, a dot, and the milliseconds in three digits. -/
def getCurrentTimestamp (now : Now) : String :=
  putTime now.timeinfo ++ "." ++ zeroPadded 3 (now.sinceEpochMs % 1000)

/-- The file name after the last `/` or `\` of the path (`find_last_of` and `substr`). -/
def baseName (file : String) : String :=
  ⟨(file.data.reverse.takeWhile fun c => c != '/' && c != '\\').reverse⟩

/-- The `else if (function)` bracket of `formatMessage`. -/
def functionTag : Option String → String
  | some function => "[" ++ function ++ "] "
  | none => ""

/-- The bracket `formatMessage` writes after the level: the file's name and the line when there is
a file and a positive line, with the function if there is one; otherwise the function alone. -/
def locationTag (file : Option String) (line : Int) (function : Option String) : String :=
  match file with
  | some f =>
    if line > 0 then
      "[" ++ baseName f ++ ":" ++ toString line ++
        (match function with
          | some function => " (" ++ function ++ ")"
          | none => "") ++ "] "
    else functionTag function
  | none => functionTag function

/-- `formatMessage`, with the clock reading its `getCurrentTimestamp` takes. -/
def formatMessage (now : Now) (level : LogLevel) (message : String) (file : Option String)
    (line : Int) (function : Option String) : String :=
  "[" ++ getCurrentTimestamp now ++ "] " ++ "[" ++ levelToString level ++ "] " ++
    locationTag file line function ++ message

/-- What `setOutputFile` writes to `std::cerr` when the file does not open. -/
def openFailureNotice (filePath : String) : String :=
  "Error: Logger failed to open output file: " ++ filePath

example :
    formatMessage ⟨⟨124, 0, 5, 9, 3, 7⟩, 1704445387042⟩ .warning "queue full"
        (some "src/utils/threading.cpp") 42 (some "enqueue") =
      "[2024-01-05 09:03:07.042] [WARNING] [threading.cpp:42 (enqueue)] queue full" := by
  decide

/-! ## Reading a record back -/

def levelOfString (s : String) : Option LogLevel :=
  [LogLevel.none, .error, .warning, .info, .debug, .trace].find? (levelToString · == s)

def recordTag (r : String) : Option String :=
  match r.data with
  | '[' :: rest =>
    match rest.dropWhile (· != ']') with
    | ']' :: ' ' :: '[' :: tag => some ⟨tag.takeWhile (· != ']')⟩
    | _ => none
  | _ => none

def recordLevel (r : String) : Option LogLevel := (recordTag r).bind levelOfString

def Unbracketed (s : String) : Prop := ∀ c ∈ s.data, (c != ']') = true

instance : DecidablePred Unbracketed := fun s => inferInstanceAs (Decidable (∀ c ∈ s.data, _))

theorem Unbracketed.append {s t : String} (hs : Unbracketed s) (ht : Unbracketed t) :
    Unbracketed (s ++ t) := by
  intro c hc
  rw [String.data_append, List.mem_append] at hc
  exact hc.elim (hs c) (ht c)

theorem isDigit_digitChar : ∀ d < 10, (Nat.digitChar d).isDigit = true := by decide

theorem isDigit_of_mem_toDigitsCore : ∀ (fuel n : Nat) (ds : List Char),
    (∀ c ∈ ds, c.isDigit = true) → ∀ c ∈ Nat.toDigitsCore 10 fuel n ds, c.isDigit = true
  | 0, _, _, hds => hds
  | fuel + 1, n, ds, hds => by
    have hcons : ∀ c ∈ Nat.digitChar (n % 10) :: ds, c.isDigit = true :=
      List.forall_mem_cons.mpr ⟨isDigit_digitChar _ (Nat.mod_lt n (by decide)), hds⟩
    dsimp only [Nat.toDigitsCore]
    split
    · exact hcons
    · exact isDigit_of_mem_toDigitsCore fuel _ _ hcons

theorem unbracketed_toString (n : Nat) : Unbracketed (toString n) := fun c hc => by
  have : c.isDigit = true := isDigit_of_mem_toDigitsCore (n + 1) n [] (by simp) c hc
  rw [bne_iff_ne]
  rintro rfl
  exact absurd this (by decide)

theorem unbracketed_zeroPadded (width n : Nat) : Unbracketed (zeroPadded width n) :=
  Unbracketed.append (fun c hc => by rw [List.eq_of_mem_replicate hc]; rfl) (unbracketed_toString n)

theorem unbracketed_getCurrentTimestamp (now : Now) : Unbracketed (getCurrentTimestamp now) := by
  have hd : Unbracketed "-" := by decide
  have hs : Unbracketed " " := by decide
  have hc : Unbracketed ":" := by decide
  have hz := unbracketed_zeroPadded
  have hput : Unbracketed (putTime now.timeinfo) :=
    ((((((((((unbracketed_toString _).append hd).append (hz 2 _)).append hd).append (hz 2 _)).append
      hs).append (hz 2 _)).append hc).append (hz 2 _)).append hc).append (hz 2 _)
  exact (hput.append (by decide)).append (hz 3 _)

theorem unbracketed_levelToString (level : LogLevel) : Unbracketed (levelToString level) := by
  unfold levelToString
  split <;> decide

theorem recordTag_formatMessage (now : Now) (level : LogLevel) (message : String)
    (file : Option String) (line : Int) (function : Option String) :
    recordTag (formatMessage now level message file line function) = some (levelToString level) := by
  have h : (formatMessage now level message file line function).data =
      '[' :: ((getCurrentTimestamp now).data ++ ']' :: ' ' :: '[' ::
        ((levelToString level).data ++ (']' :: ' ' :: (locationTag file line function).data) ++
          message.data)) := by
    have hl : "[".data = ['['] := rfl
    have hr : "] ".data = [']', ' '] := rfl
    simp only [formatMessage, String.data_append, List.append_assoc, hl, hr, List.cons_append,
      List.nil_append, List.singleton_append]
  have hd : ∀ rest, (']' :: rest).dropWhile (· != ']') = ']' :: rest := fun _ =>
    List.dropWhile_cons_of_neg (by decide)
  have ht : ∀ rest, (']' :: rest).takeWhile (· != ']') = [] := fun _ =>
    List.takeWhile_cons_of_neg (by decide)
  rw [recordTag, h]
  simp only [List.dropWhile_append_of_pos (unbracketed_getCurrentTimestamp now), hd,
    List.append_assoc, List.cons_append,
    List.takeWhile_append_of_pos (unbracketed_levelToString level), ht, List.append_nil]

theorem eq_of_levelOfString_levelToString {level level' : LogLevel}
    (h : levelOfString (levelToString level) = some level') : level' = level := by
  obtain ⟨v⟩ := level
  unfold levelToString at h
  split at h <;> rename_i hv
  all_goals first | (simp only at hv; subst hv; exact (Option.some.inj h).symm) | cases h

theorem recordTag_openFailureNotice (filePath : String) :
    recordTag (openFailureNotice filePath) = none := rfl

/-! ## The logger and its streams -/

/-- The fields of the singleton; `outputFileStream` is the path `output_file_stream_` was opened on,
while it is open. -/
structure Logger where
  currentLevel : LogLevel
  consoleOutputEnabled : Bool
  outputFileStream : Option String
  outputFilePath : String
  deriving DecidableEq, Repr

/-- `Logger()`: level `INFO`, the console on, no file. -/
def Logger.new : Logger := ⟨.info, true, none, ""⟩

/-- The logger with the records it has written. `fileOf` is the file each path spelling resolves
to, which the run does not change; `files` holds each file's records. -/
structure LogSystem where
  logger : Logger
  cout : List String
  cerr : List String
  fileOf : String → String
  files : String → List String

namespace LogSystem

def setLogLevel (w : LogSystem) (level : LogLevel) : LogSystem :=
  { w with logger := { w.logger with currentLevel := level } }

def getLogLevel (w : LogSystem) : LogLevel := w.logger.currentLevel

def setConsoleOutput (w : LogSystem) (enabled : Bool) : LogSystem :=
  { w with logger := { w.logger with consoleOutputEnabled := enabled } }

/-- `setOutputFile(file_path, append)`: close the stream, keep the path, and open the file it
names for output, at its end with `append` and emptied without. A file that does not open is
reported on `std::cerr` and its path cleared. -/
def setOutputFile (w : LogSystem) (filePath : String) (append opened : Bool) : LogSystem :=
  let closed := { w.logger with outputFileStream := none, outputFilePath := filePath }
  if filePath.isEmpty then { w with logger := closed }
  else if opened then
    { w with
      logger := { closed with outputFileStream := some filePath }
      files := if append then w.files else Function.update w.files (w.fileOf filePath) [] }
  else
    { w with
      logger := { closed with outputFilePath := "" }
      cerr := w.cerr ++ [openFailureNotice filePath] }

/-- The console write of `log`: `std::cerr` for `ERROR`, `std::cout` for every other value. -/
def writeConsole (w : LogSystem) (level : LogLevel) (finalMessage : String) : LogSystem :=
  if w.logger.consoleOutputEnabled then
    if level = .error then { w with cerr := w.cerr ++ [finalMessage] }
    else { w with cout := w.cout ++ [finalMessage] }
  else w

/-- The file write of `log`, when the stream is open: to the file its path names. -/
def writeFile (w : LogSystem) (finalMessage : String) : LogSystem :=
  match w.logger.outputFileStream with
  | some path =>
    { w with files := Function.update w.files (w.fileOf path) (w.files (w.fileOf path) ++ [finalMessage]) }
  | none => w

/-- `log(level, message, file, line, function)`. -/
def log (w : LogSystem) (level : LogLevel) (message : String) (file : Option String) (line : Int)
    (function : Option String) (now : Now) : LogSystem :=
  if level > w.logger.currentLevel ∨ level = .none then w
  else
    let finalMessage := formatMessage now level message file line function
    (w.writeConsole level finalMessage).writeFile finalMessage

/-! The convenience methods are `log` at their level. -/

def error (w : LogSystem) := w.log .error

def warning (w : LogSystem) := w.log .warning

def info (w : LogSystem) := w.log .info

def debug (w : LogSystem) := w.log .debug

def trace (w : LogSystem) := w.log .trace

/-- `SHOULD_LOG(level)`. -/
def shouldLog (w : LogSystem) (level : LogLevel) : Bool :=
  decide (level ≤ w.getLogLevel) && level != .none

/-- `LOG_MSG(level, message)` at a call site: `__FILE__`, `__LINE__` and `__func__` are `file`,
`line` and `func`. -/
def logMsg (w : LogSystem) (level : LogLevel) (message file : String) (line : Int) (func : String)
    (now : Now) : LogSystem :=
  if w.shouldLog level then w.log level message (some file) line (some func) now else w

inductive LogCall where
  | setLogLevel (level : LogLevel)
  | setConsoleOutput (enabled : Bool)
  | setOutputFile (filePath : String) (append opened : Bool)
  | log (level : LogLevel) (message : String) (file : Option String) (line : Int)
      (function : Option String) (now : Now)
  | logMsg (level : LogLevel) (message file : String) (line : Int) (func : String) (now : Now)
  deriving DecidableEq, Repr

def apply (w : LogSystem) : LogCall → LogSystem
  | .setLogLevel level => w.setLogLevel level
  | .setConsoleOutput enabled => w.setConsoleOutput enabled
  | .setOutputFile filePath append opened => w.setOutputFile filePath append opened
  | .log level message file line function now => w.log level message file line function now
  | .logMsg level message file line func now => w.logMsg level message file line func now

def run (calls : List LogCall) (w : LogSystem) : LogSystem := calls.foldl apply w

def initial (fileOf : String → String) (files : String → List String) : LogSystem :=
  ⟨Logger.new, [], [], fileOf, files⟩

/-! ## What one call does -/

section Calls

variable (w : LogSystem) (level : LogLevel) (message : String) (file : Option String) (line : Int)
  (function : Option String) (now : Now)

@[simp] theorem cout_writeFile (m : String) : (w.writeFile m).cout = w.cout := by
  unfold writeFile; split <;> rfl

@[simp] theorem cerr_writeFile (m : String) : (w.writeFile m).cerr = w.cerr := by
  unfold writeFile; split <;> rfl

@[simp] theorem logger_writeFile (m : String) : (w.writeFile m).logger = w.logger := by
  unfold writeFile; split <;> rfl

@[simp] theorem fileOf_writeFile (m : String) : (w.writeFile m).fileOf = w.fileOf := by
  unfold writeFile; split <;> rfl

@[simp] theorem logger_writeConsole (m : String) : (w.writeConsole level m).logger = w.logger := by
  unfold writeConsole; split_ifs <;> rfl

@[simp] theorem files_writeConsole (m : String) : (w.writeConsole level m).files = w.files := by
  unfold writeConsole; split_ifs <;> rfl

@[simp] theorem fileOf_writeConsole (m : String) :
    (w.writeConsole level m).fileOf = w.fileOf := by
  unfold writeConsole; split_ifs <;> rfl

theorem logMsg_eq_log (file : String) (func : String) :
    w.logMsg level message file line func now =
      w.log level message (some file) line (some func) now := by
  unfold logMsg shouldLog getLogLevel log
  have : level > w.logger.currentLevel ↔ ¬ level ≤ w.logger.currentLevel := Int.not_le.symm
  by_cases hl : level ≤ w.logger.currentLevel <;> by_cases hn : level = .none <;> simp [hl, hn, this]

@[simp] theorem logger_log : (w.log level message file line function now).logger = w.logger := by
  unfold log; split_ifs <;> simp

@[simp] theorem fileOf_log : (w.log level message file line function now).fileOf = w.fileOf := by
  unfold log; split_ifs <;> simp

theorem log_of_emitted (h : level ≤ w.logger.currentLevel) (hn : level ≠ .none) :
    w.log level message file line function now =
      (w.writeConsole level (formatMessage now level message file line function)).writeFile
        (formatMessage now level message file line function) := by
  have : ¬ (level > w.logger.currentLevel ∨ level = .none) := by
    rintro (hl | hl)
    · exact Int.not_lt.mpr h hl
    · exact hn hl
  rw [log, if_neg this]

theorem log_of_filtered (h : ¬ (level ≤ w.logger.currentLevel ∧ level ≠ .none)) :
    w.log level message file line function now = w := by
  refine if_pos ?_
  by_cases hn : level = .none
  · exact .inr hn
  · exact .inl (Int.not_le.mp fun hl => h ⟨hl, hn⟩)

end Calls

def ConsoleStep (w w' : LogSystem) : Prop :=
  w'.cout = w.cout ∧ w'.cerr = w.cerr ∨
  (∃ m level, recordTag m = some (levelToString level) ∧ level ≤ w.logger.currentLevel ∧
    level ≠ .none ∧
    (level ≠ .error ∧ w'.cout = w.cout ++ [m] ∧ w'.cerr = w.cerr ∨
      level = .error ∧ w'.cout = w.cout ∧ w'.cerr = w.cerr ++ [m])) ∨
  ∃ filePath, w'.cout = w.cout ∧ w'.cerr = w.cerr ++ [openFailureNotice filePath]

theorem consoleStep_log (w : LogSystem) (level : LogLevel) (message : String)
    (file : Option String) (line : Int) (function : Option String) (now : Now) :
    ConsoleStep w (w.log level message file line function now) := by
  by_cases h : level ≤ w.logger.currentLevel ∧ level ≠ .none
  · rw [log_of_emitted w level message file line function now h.1 h.2]
    simp only [ConsoleStep, cout_writeFile, cerr_writeFile, writeConsole]
    split_ifs with hc he
    · exact .inr (.inl ⟨_, level, recordTag_formatMessage .., h.1, h.2, .inr ⟨he, rfl, rfl⟩⟩)
    · exact .inr (.inl ⟨_, level, recordTag_formatMessage .., h.1, h.2, .inl ⟨he, rfl, rfl⟩⟩)
    · exact .inl ⟨rfl, rfl⟩
  · exact .inl (by rw [log_of_filtered w level message file line function now h]; simp)

theorem consoleStep_apply (w : LogSystem) (c : LogCall) : ConsoleStep w (w.apply c) := by
  cases c with
  | setLogLevel level => exact .inl ⟨rfl, rfl⟩
  | setConsoleOutput enabled => exact .inl ⟨rfl, rfl⟩
  | setOutputFile filePath append opened =>
    simp only [apply, setOutputFile]
    split
    · exact .inl ⟨rfl, rfl⟩
    split
    · exact .inl ⟨rfl, rfl⟩
    · exact .inr (.inr ⟨filePath, rfl, rfl⟩)
  | log level message file line function now => exact consoleStep_log ..
  | logMsg level message file line func now =>
    rw [apply, logMsg_eq_log]
    exact consoleStep_log ..

theorem currentLevel_apply (w : LogSystem) (c : LogCall) :
    (w.apply c).logger.currentLevel = w.logger.currentLevel ∨
      c = .setLogLevel (w.apply c).logger.currentLevel := by
  cases c with
  | setLogLevel level => exact .inr rfl
  | setConsoleOutput enabled => exact .inl rfl
  | setOutputFile filePath append opened =>
    refine .inl ?_
    simp only [apply, setOutputFile]
    split_ifs <;> rfl
  | log level message file line function now => exact .inl (by simp [apply])
  | logMsg level message file line func now => exact .inl (by simp [apply, logMsg_eq_log])

@[simp] theorem fileOf_apply (w : LogSystem) (c : LogCall) : (w.apply c).fileOf = w.fileOf := by
  cases c with
  | setOutputFile filePath append opened =>
    simp only [apply, setOutputFile]
    split_ifs <;> rfl
  | log level message file line function now => simp [apply]
  | logMsg level message file line func now => simp [apply, logMsg_eq_log]
  | _ => rfl

theorem files_log (w : LogSystem) (level : LogLevel) (message : String) (file : Option String)
    (line : Int) (function : Option String) (now : Now) (f : String) :
    (w.log level message file line function now).files f = w.files f ∨
      level ≠ .none ∧ (w.log level message file line function now).files f =
        w.files f ++ [formatMessage now level message file line function] := by
  by_cases h : level ≤ w.logger.currentLevel ∧ level ≠ .none
  · rw [log_of_emitted w level message file line function now h.1 h.2, writeFile,
      fileOf_writeConsole, files_writeConsole, logger_writeConsole]
    split
    · rename_i path _
      by_cases hp : w.fileOf path = f
      · subst hp
        exact .inr ⟨h.2, by simp⟩
      · exact .inl (by simp [Function.update_noteq (Ne.symm hp)])
    · exact .inl (by simp)
  · exact .inl (by rw [log_of_filtered w level message file line function now h])

theorem files_apply (w : LogSystem) {c : LogCall} {f : String}
    (hc : ∀ q, c = .setOutputFile q false true → w.fileOf q ≠ f) :
    ∃ new, (w.apply c).files f = w.files f ++ new ∧
      ∀ r ∈ new, ∃ level, recordTag r = some (levelToString level) ∧ level ≠ .none := by
  have hlog : ∀ level message file line function now, ∃ new,
      (w.log level message file line function now).files f = w.files f ++ new ∧
        ∀ r ∈ new, ∃ level, recordTag r = some (levelToString level) ∧ level ≠ .none := by
    intro level message file line function now
    rcases files_log w level message file line function now f with h | ⟨hn, h⟩
    · exact ⟨[], by simp [h], fun _ h => nomatch h⟩
    · refine ⟨_, h, ?_⟩
      rw [List.forall_mem_singleton]
      exact ⟨level, recordTag_formatMessage .., hn⟩
  cases c with
  | setLogLevel level => exact ⟨[], by simp [apply, setLogLevel], fun _ h => nomatch h⟩
  | setConsoleOutput enabled => exact ⟨[], by simp [apply, setConsoleOutput], fun _ h => nomatch h⟩
  | setOutputFile filePath append opened =>
    refine ⟨[], ?_, fun _ h => nomatch h⟩
    simp only [apply, setOutputFile, List.append_nil]
    split_ifs with h₁ h₂ h₃
    · rfl
    · rfl
    · have hp : w.fileOf filePath ≠ f := hc filePath (by simp_all)
      exact Function.update_noteq hp.symm _ _
    · rfl
  | log level message file line function now => exact hlog ..
  | logMsg level message file line func now =>
    rw [apply, logMsg_eq_log]
    exact hlog ..

/-! ## Over whole runs -/

@[simp] theorem run_nil (w : LogSystem) : run [] w = w := rfl

@[simp] theorem run_cons (c : LogCall) (calls : List LogCall) (w : LogSystem) :
    run (c :: calls) w = run calls (w.apply c) := rfl

structure Routed (w : LogSystem) : Prop where
  cerr : ∀ r ∈ w.cerr,
    recordTag r = some (levelToString .error) ∨ ∃ filePath, r = openFailureNotice filePath
  cout : ∀ r ∈ w.cout,
    ∃ level, recordTag r = some (levelToString level) ∧ level ≠ .none ∧ level ≠ .error

theorem Routed.apply {w : LogSystem} (hw : Routed w) (c : LogCall) : Routed (w.apply c) := by
  rcases consoleStep_apply w c with
    ⟨ho, he⟩ | ⟨m, level, hm, -, hn, ⟨hne, ho, he⟩ | ⟨rfl, ho, he⟩⟩ | ⟨filePath, ho, he⟩
  · exact ⟨he ▸ hw.cerr, ho ▸ hw.cout⟩
  · refine ⟨he ▸ hw.cerr, ?_⟩
    rw [ho, List.forall_mem_append, List.forall_mem_singleton]
    exact ⟨hw.cout, level, hm, hn, hne⟩
  · refine ⟨?_, ho ▸ hw.cout⟩
    rw [he, List.forall_mem_append, List.forall_mem_singleton]
    exact ⟨hw.cerr, .inl hm⟩
  · refine ⟨?_, ho ▸ hw.cout⟩
    rw [he, List.forall_mem_append, List.forall_mem_singleton]
    exact ⟨hw.cerr, .inr ⟨filePath, rfl⟩⟩

theorem Routed.run {w : LogSystem} (hw : Routed w) (calls : List LogCall) :
    Routed (run calls w) := by
  induction calls generalizing w with
  | nil => exact hw
  | cons c calls ih => exact ih (hw.apply c)

/-- Over any run from the program's start, every record on `std::cerr` names `ERROR` or is a
notice of a file that did not open, and every record on `std::cout` names a level other than
`NONE` and `ERROR` (`UNKNOWN` for a value that is no enumerator), read from the record's text. -/
theorem console_records_routed (fileOf : String → String) (files : String → List String)
    (calls : List LogCall) :
    (∀ r ∈ (run calls (initial fileOf files)).cerr,
        recordTag r = some (levelToString .error) ∨ ∃ filePath, r = openFailureNotice filePath) ∧
      ∀ r ∈ (run calls (initial fileOf files)).cout,
        ∃ level, recordTag r = some (levelToString level) ∧ level ≠ .none ∧ level ≠ .error :=
  have h := Routed.run (w := initial fileOf files)
    ⟨(fun _ h => nomatch h), (fun _ h => nomatch h)⟩ calls
  ⟨h.cerr, h.cout⟩

structure Quiet (bound : LogLevel) (w : LogSystem) : Prop where
  level_le : w.logger.currentLevel ≤ bound
  cout : ∀ r ∈ w.cout, ∀ level, recordLevel r = some level → level ≤ bound
  cerr : ∀ r ∈ w.cerr, ∀ level, recordLevel r = some level → level ≤ bound

theorem quiet_append {bound : LogLevel} {rs : List String} {m : String} {level : LogLevel}
    (hrs : ∀ r ∈ rs, ∀ level, recordLevel r = some level → level ≤ bound)
    (hm : recordTag m = some (levelToString level)) (hl : level ≤ bound) :
    ∀ r ∈ rs ++ [m], ∀ level, recordLevel r = some level → level ≤ bound := by
  rw [List.forall_mem_append, List.forall_mem_singleton, recordLevel, hm, Option.some_bind]
  exact ⟨hrs, fun _ h => eq_of_levelOfString_levelToString h ▸ hl⟩

theorem Quiet.apply {bound : LogLevel} {w : LogSystem} (hw : Quiet bound w) {c : LogCall}
    (hc : ∀ level, c = .setLogLevel level → level ≤ bound) : Quiet bound (w.apply c) := by
  have hlevel : (w.apply c).logger.currentLevel ≤ bound := by
    rcases currentLevel_apply w c with h | h
    · exact h ▸ hw.level_le
    · exact hc _ h
  rcases consoleStep_apply w c with
    ⟨ho, he⟩ | ⟨m, level, hm, hl, -, ⟨-, ho, he⟩ | ⟨-, ho, he⟩⟩ | ⟨filePath, ho, he⟩
  · exact ⟨hlevel, ho ▸ hw.cout, he ▸ hw.cerr⟩
  · exact ⟨hlevel, ho ▸ quiet_append hw.cout hm (Int.le_trans hl hw.level_le), he ▸ hw.cerr⟩
  · exact ⟨hlevel, ho ▸ hw.cout, he ▸ quiet_append hw.cerr hm (Int.le_trans hl hw.level_le)⟩
  · refine ⟨hlevel, ho ▸ hw.cout, ?_⟩
    rw [he, List.forall_mem_append, List.forall_mem_singleton, recordLevel,
      recordTag_openFailureNotice]
    exact ⟨hw.cerr, fun _ h => nomatch h⟩

theorem Quiet.run {bound : LogLevel} {w : LogSystem} (hw : Quiet bound w) {calls : List LogCall}
    (hc : ∀ level, LogCall.setLogLevel level ∈ calls → level ≤ bound) :
    Quiet bound (run calls w) := by
  induction calls generalizing w with
  | nil => exact hw
  | cons c calls ih =>
    exact ih (hw.apply fun level h => hc level (h ▸ List.mem_cons_self _ _))
      fun level h => hc level (List.mem_cons_of_mem _ h)

/-- A run from the program's start that never sets the level above `bound` (at least `INFO`,
the level the logger starts at) puts no record of a level above `bound` on the console. -/
theorem console_quiet_of_run {bound : LogLevel} (fileOf : String → String)
    (files : String → List String) {calls : List LogCall} (hb : .info ≤ bound)
    (hc : ∀ level, LogCall.setLogLevel level ∈ calls → level ≤ bound) :
    ∀ r ∈ (run calls (initial fileOf files)).cout ++ (run calls (initial fileOf files)).cerr,
      ∀ level, recordLevel r = some level → level ≤ bound :=
  have h := Quiet.run (w := initial fileOf files)
    ⟨hb, (fun _ h => nomatch h), (fun _ h => nomatch h)⟩ hc
  List.forall_mem_append.mpr ⟨h.cout, h.cerr⟩

theorem console_quiet_of_run_debug_dropped :
    (.info ≤ LogLevel.info ∧
      ∀ level, LogCall.setLogLevel level ∈
        [.logMsg .debug "probe" "src/a.cpp" 7 "f" ⟨⟨124, 0, 5, 9, 3, 7⟩, 42⟩,
          .setLogLevel .error, .log .warning "late" none 0 none ⟨⟨124, 0, 5, 9, 3, 8⟩, 1042⟩] →
        level ≤ .info) ∧
    ∀ r ∈ (run [.logMsg .debug "probe" "src/a.cpp" 7 "f" ⟨⟨124, 0, 5, 9, 3, 7⟩, 42⟩,
          .setLogLevel .error, .log .warning "late" none 0 none ⟨⟨124, 0, 5, 9, 3, 8⟩, 1042⟩]
          (initial id fun _ => [])).cout ++
        (run [.logMsg .debug "probe" "src/a.cpp" 7 "f" ⟨⟨124, 0, 5, 9, 3, 7⟩, 42⟩,
          .setLogLevel .error, .log .warning "late" none 0 none ⟨⟨124, 0, 5, 9, 3, 8⟩, 1042⟩]
          (initial id fun _ => [])).cerr,
      ∀ level, recordLevel r = some level → level ≤ .info :=
  have hc : ∀ level, LogCall.setLogLevel level ∈
      [.logMsg .debug "probe" "src/a.cpp" 7 "f" ⟨⟨124, 0, 5, 9, 3, 7⟩, 42⟩,
        .setLogLevel .error, .log .warning "late" none 0 none ⟨⟨124, 0, 5, 9, 3, 8⟩, 1042⟩] →
      level ≤ .info := by
    intro level h
    simp only [List.mem_cons, List.mem_singleton, reduceCtorEq, false_or, or_false,
      LogCall.setLogLevel.injEq, List.not_mem_nil] at h
    subst h
    decide
  ⟨⟨by decide, hc⟩, console_quiet_of_run _ _ (by decide) hc⟩

/-- Over any run, a file that no call opens without `append`, through any spelling of a path
that names it, keeps what it held and gains only records of levels other than `NONE`. -/
theorem file_kept_unless_truncated (w : LogSystem) {calls : List LogCall} {f : String}
    (h : ∀ c ∈ calls, ∀ q, c = .setOutputFile q false true → w.fileOf q ≠ f) :
    ∃ new, (run calls w).files f = w.files f ++ new ∧
      ∀ r ∈ new, ∃ level, recordTag r = some (levelToString level) ∧ level ≠ .none := by
  induction calls generalizing w with
  | nil => exact ⟨[], by simp, fun _ h => nomatch h⟩
  | cons c calls ih =>
    obtain ⟨new₁, h₁, hn₁⟩ := files_apply w (h c (List.mem_cons_self _ _))
    obtain ⟨new₂, h₂, hn₂⟩ := ih (w.apply c) fun c' hc' => by
      rw [fileOf_apply]
      exact h c' (List.mem_cons_of_mem _ hc')
    exact ⟨new₁ ++ new₂, by rw [run_cons, h₂, h₁, List.append_assoc],
      List.forall_mem_append.mpr ⟨hn₁, hn₂⟩⟩

theorem file_kept_unless_truncated_reopened :
    (∀ c ∈ [LogCall.setOutputFile "./app.log" true true,
        .log .error "disk full" none 0 none ⟨⟨124, 0, 5, 9, 3, 7⟩, 42⟩,
        .setOutputFile "other.log" false true], ∀ q, c = .setOutputFile q false true →
          (initial (fun p => if p = "./app.log" then "app.log" else p) fun _ => ["boot"]).fileOf q ≠
            "app.log") ∧
    ∃ new, (run [.setOutputFile "./app.log" true true,
        .log .error "disk full" none 0 none ⟨⟨124, 0, 5, 9, 3, 7⟩, 42⟩,
        .setOutputFile "other.log" false true]
        (initial (fun p => if p = "./app.log" then "app.log" else p) fun _ => ["boot"])).files
        "app.log" = ["boot"] ++ new ∧
      ∀ r ∈ new, ∃ level, recordTag r = some (levelToString level) ∧ level ≠ .none :=
  have h : ∀ c ∈ [LogCall.setOutputFile "./app.log" true true,
      .log .error "disk full" none 0 none ⟨⟨124, 0, 5, 9, 3, 7⟩, 42⟩,
      .setOutputFile "other.log" false true], ∀ q, c = .setOutputFile q false true →
        (initial (fun p => if p = "./app.log" then "app.log" else p) fun _ => ["boot"]).fileOf q ≠
          "app.log" := by
    intro c hc q hq
    subst hq
    simp only [List.mem_cons, List.mem_singleton, LogCall.setOutputFile.injEq, reduceCtorEq,
      List.not_mem_nil, or_false, false_or, Bool.false_eq_true, and_false, false_and, and_true] at hc
    subst hc
    decide
  ⟨h, file_kept_unless_truncated _ h⟩

def StreamOnPath (l : Logger) : Prop :=
  l.outputFileStream = if l.outputFilePath.isEmpty then none else some l.outputFilePath

theorem StreamOnPath.apply {w : LogSystem} (h : StreamOnPath w.logger) (c : LogCall) :
    StreamOnPath (w.apply c).logger := by
  cases c with
  | setLogLevel level => exact h
  | setConsoleOutput enabled => exact h
  | setOutputFile filePath append opened =>
    have he : "".isEmpty = true := rfl
    simp only [LogSystem.apply, setOutputFile, StreamOnPath]
    split_ifs <;> simp_all
  | log level message file line function now => simpa [LogSystem.apply] using h
  | logMsg level message file line func now => simpa [LogSystem.apply, logMsg_eq_log] using h

theorem StreamOnPath.run {w : LogSystem} (h : StreamOnPath w.logger) (calls : List LogCall) :
    StreamOnPath (run calls w).logger := by
  induction calls generalizing w with
  | nil => exact h
  | cons c calls ih => exact ih (h.apply c)

/-- Over any run from the program's start, `output_file_path_` names the file the stream has
open, and is empty when none is. -/
theorem stream_on_path_of_run (fileOf : String → String) (files : String → List String)
    (calls : List LogCall) : StreamOnPath (run calls (initial fileOf files)).logger :=
  StreamOnPath.run (w := initial fileOf files) rfl calls

end LogSystem

end Classifier
