import PacketBudget.Host.Client
import PacketBudget.Program

/-!
The command line. The host takes standard input and output for its one client; the log goes to
standard error.
-/

open PacketBudget

/-- What a path leads to. -/
def contentsOf (path : String) : IO FileContents := do
  try
    return .bytes (← IO.FS.readBinFile path)
  catch
    | .noFileOrDirectory .. => return .missing
    | .inappropriateType .. => return .directory
    | .permissionDenied .. =>
      return .unreadable ⟨.permissionDenied, "Permission denied (os error 13)"⟩
    | e => return .unreadable ⟨.other, toString e⟩

/-- Prints the lines of the log from number `seen` on. -/
def printLog (r : Program.Running) (seen : Nat) : IO Nat := do
  let lines := r.log
  for l in lines.drop seen do
    IO.eprintln l.text
  return lines.length

/-- Passes what comes in to the host, and what it writes out, until the conversation is over. -/
partial def converse (r : Program.Running) (seen : Nat) : IO Program.Running := do
  let seen ← printLog r seen
  let (out, host) := r.host.take 0 (r.host.ready 0)
  let r := { r with host := host }
  let stdout ← IO.getStdout
  stdout.write ⟨out.toArray⟩
  stdout.flush
  if host.isOver 0 then return r
  let chunk ← (← IO.getStdin).read 65536
  let host := if chunk.isEmpty then host.endInput 0 else host.send 0 chunk.data.toList
  converse { r with host := host } seen

def main (args : List String) : IO UInt32 := do
  let contents ← contentsOf (Program.configPath args)
  match Program.start args contents (← IO.getEnv "RUST_LOG") 0 with
  | .error report =>
    IO.print report.stdout
    for l in report.stderr do
      IO.eprintln l
    return UInt32.ofNat report.exitCode
  | .ok r =>
    for l in Program.warnings r.filter do
      IO.eprintln l
    let r ← match r.failure with
      | some _ => pure r
      | none => converse { r with host := r.host.connect "standard input" } 0
    let _ ← printLog r.stop (if r.failure.isSome then 0 else r.log.length)
    return 0
