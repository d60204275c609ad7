import PacketBudget.Config
import PacketBudget.Fault
import PacketBudget.Text.Blank
import PacketBudget.Text.Numeral

/-!
Reading a configuration. A text is read line by line: blank lines and lines that start with `#`
say nothing, `[group]` names the group of the keys that follow, `key = value` assigns within that
group, and `group.key = value` names its own. Main statements: reading a text goes on from the
lines before, and a text that fails is not mended by what follows.
-/

namespace PacketBudget

/-- What is wrong with a line. -/
inductive LineFault
  | badHeader (line : String)
  | noEquals (line : String)
  | noGroup (key : String)
  | unknownKey (group key : String)
  | badNumeral (key : String) (fault : Text.NumeralFault)
  deriving DecidableEq, Repr

def LineFault.message : LineFault → String
  | .badHeader line => s!"bad section header {line}"
  | .noEquals line => s!"expected key = value, got {line}"
  | .noGroup key => s!"key {key} outside of any section"
  | .unknownKey group key => s!"unknown key {group}.{key}"
  | .badNumeral key fault => key ++ ": " ++ fault.message

/-- The first line that is wrong, counted from one, and what is wrong with it. -/
structure ConfigFault where
  line : Nat
  cause : LineFault
  deriving DecidableEq, Repr

def ConfigFault.message (f : ConfigFault) : String :=
  s!"line {f.line}: " ++ f.cause.message

/-- What a line says, apart from where it stands. -/
inductive Line
  | blank
  | header (group : List Char)
  /-- An assignment, with its own group or in that of the header before it. -/
  | pair (group : Option (List Char)) (key value : List Char)
  deriving DecidableEq, Repr

open Text

/-- A value without the comment after it: up to its second quote if it starts with one, else up to
the first `#`. A quote that is never closed keeps everything. -/
def stripComment : List Char → List Char
  | '"' :: inner =>
    match cut? '"' inner with
    | some (quoted, _) => '"' :: quoted ++ ['"']
    | none => '"' :: inner
  | value => trim (before '#' value)

/-- A value without the quotes at either end. -/
def unquote (value : List Char) : List Char :=
  ((value.dropWhile (· == '"')).reverse.dropWhile (· == '"')).reverse

def Line.ofTrimmed : List Char → Except LineFault Line
  | [] => .ok .blank
  | '#' :: _ => .ok .blank
  | '[' :: rest =>
    let head := trim (before '#' rest)
    if head.getLast? = some ']' then .ok (.header (trim head.dropLast))
    else .error (.badHeader (String.ofList ('[' :: rest)))
  | line =>
    match cut? '=' line with
    | none => .error (.noEquals (String.ofList line))
    | some (left, right) =>
      let value := stripComment (trim right)
      match cut? '.' (trim left) with
      | some (group, key) => .ok (.pair (some (trim group)) (trim key) value)
      | none => .ok (.pair none (trim left) value)

/-- What a line says; the blanks around it say nothing. -/
def Line.read (line : List Char) : Except LineFault Line := Line.ofTrimmed (trim line)

/-- The value that a text gives a setting. -/
def Setting.read (s : Setting) (value : List Char) : Except NumeralFault Assignment :=
  match s with
  | .serviceName => .ok (.serviceName (String.ofList (unquote value)))
  | .memoryLimit => (readInt64 value).map .memoryLimit
  | .overhead => (readUInt64 value).map .overhead
  | .packetCap => (readUInt64 value).map .packetCap
  | .bindAddress => .ok (.bindAddress (String.ofList (unquote value)))
  | .maxFrame => (readUInt64 value).map .maxFrame
  | .readTimeout => (readUInt64 value).map .readTimeout
  | .reportInterval => (readUInt64 value).map .reportInterval

/-- The assignment of `value` to a key of a group. -/
def Assignment.read (group key value : List Char) : Except LineFault Assignment :=
  if group = [] then
    .error (.noGroup (String.ofList key))
  else
    match Setting.find? group key with
    | none => .error (.unknownKey (String.ofList group) (String.ofList key))
    | some s =>
      match s.read value with
      | .ok a => .ok a
      | .error f => .error (.badNumeral (String.ofList key) f)

/-- Where a reader stands between two lines. -/
structure Reading where
  /-- The group of the last header; empty before the first. -/
  group : List Char := []
  config : Config := {}
  deriving DecidableEq, Repr

namespace Reading

/-- Reads one line. -/
def line (r : Reading) (text : List Char) : Except LineFault Reading :=
  match Line.read text with
  | .error f => .error f
  | .ok .blank => .ok r
  | .ok (.header group) => .ok { r with group := group }
  | .ok (.pair group key value) =>
    match Assignment.read (group.getD r.group) key value with
    | .error f => .error f
    | .ok a => .ok { r with config := r.config.assign a }

/-- Reads lines, the first of which has number `n`. -/
def lines (r : Reading) (n : Nat) : List (List Char) → Except ConfigFault Reading
  | [] => .ok r
  | l :: ls =>
    match r.line l with
    | .error cause => .error ⟨n, cause⟩
    | .ok r => r.lines (n + 1) ls

theorem lines_append_of_ok {r s : Reading} {n : Nat} {ls ms : List (List Char)}
    (h : r.lines n ls = .ok s) : r.lines n (ls ++ ms) = s.lines (n + ls.length) ms := by
  induction ls generalizing r n with
  | nil =>
    simp only [lines, Except.ok.injEq] at h
    simp [h]
  | cons l ls ih =>
    cases hl : r.line l with
    | error f => simp [lines, hl] at h
    | ok t =>
      simp only [lines, hl] at h
      simp only [List.cons_append, lines, hl, List.length_cons, ih h]
      congr 1
      omega

/-- What follows a wrong line has no part in the fault. -/
theorem lines_append_of_error {r : Reading} {n : Nat} {ls ms : List (List Char)} {f : ConfigFault}
    (h : r.lines n ls = .error f) : r.lines n (ls ++ ms) = .error f := by
  induction ls generalizing r n with
  | nil => simp [lines] at h
  | cons l ls ih =>
    cases hl : r.line l with
    | error g => simpa [lines, hl] using h
    | ok t =>
      simp only [lines, hl] at h
      simp only [List.cons_append, lines, hl, ih h]

end Reading

/-- The configuration that a text gives. -/
def Config.read (text : String) : Except ConfigFault Config :=
  (Reading.lines {} 1 (Text.lines text.toList)).map Reading.config

/-- What a path leads to. -/
inductive FileContents
  | missing
  | directory
  /-- Something that cannot be read. -/
  | unreadable (e : IoError)
  | bytes (data : ByteArray)

/-- Why no configuration comes of a file. -/
inductive LoadFault
  | missing
  | directory
  | unreadable (e : IoError)
  | notText
  | malformed (fault : ConfigFault)
  deriving DecidableEq, Repr

def LoadFault.toIoError : LoadFault → IoError
  | .missing => ⟨.notFound, "No such file or directory (os error 2)"⟩
  | .directory => ⟨.isADirectory, "Is a directory (os error 21)"⟩
  | .unreadable e => e
  | .notText => ⟨.invalidData, "stream did not contain valid UTF-8"⟩
  | .malformed f => ⟨.invalidData, f.message⟩

/-- The configuration in a file. -/
def Config.load : FileContents → Except LoadFault Config
  | .missing => .error .missing
  | .directory => .error .directory
  | .unreadable e => .error (.unreadable e)
  | .bytes data =>
    match String.fromUTF8? data with
    | none => .error .notText
    | some text =>
      match Config.read text with
      | .ok c => .ok c
      | .error f => .error (.malformed f)

end PacketBudget
