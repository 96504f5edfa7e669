import ShellFold.CommandLine

/-!
# The program

Gathers what the command line works on, the environment variable of the home directory, the
user's settings, the input and the files a request names, and writes the answer. Everything else
is decided in `ShellFold.CommandLine`.
-/

set_option autoImplicit false

open ShellFold

/-- The text of a file, if it exists and is text. -/
def readText? (path : Text) : IO (Option Text) := do
  try
    let bytes ← IO.FS.readBinFile (String.ofList path)
    return Text.ofBytes? bytes.toList
  catch _ => return none

/-- Whether a new file can be put into a directory. -/
def acceptsFile (directory : Text) : IO Bool := do
  let path := String.ofList (directory ++ journalName)
  try
    let _ ← IO.FS.Handle.mk path .append
    IO.FS.removeFile path
    return true
  catch _ => return false

/-- Opens the debug log, with the directories it is to be in. -/
def openLog (path : Text) : IO Bool := do
  let directory := (path.reverse.dropWhile (· ≠ '/')).reverse
  try
    IO.FS.createDirAll (String.ofList directory)
  catch _ => pure ()
  try
    let _ ← IO.FS.Handle.mk (String.ofList path) .append
    return true
  catch _ => return false

def tell (notice : Notice) : IO Unit := IO.eprintln notice.message

/-- The host as far as a request can see it. -/
def hostFor (home : Option Text) (settings : OracleSettings) (input : Option Text) : IO Host := do
  let host : Host := { home, hasDirectory := fun _ => false, fileText := fun _ => none }
  let directory := (settings.directory? home).getD host.temporaryDirectory
  let usable ← acceptsFile directory
  let host := { host with hasDirectory := fun path => path = directory && usable }
  match (input.bind Request.read?).bind fun request => request.environment.dumpFile with
  | none => return host
  | some dump =>
    let content ← readText? dump
    return { host with fileText := fun path => if path = dump then content else none }

def main : IO UInt32 := do
  let home := (← IO.getEnv "HOME").map String.toList
  let document ← match home with
    | some directory => readText? (directory ++ settingsFile)
    | none => pure none
  let (settings, ignored) := Settings.load document
  if ignored then tell .settingsIgnored
  if let some path := settings.logFile? home then
    unless ← openLog path do tell (.logNotOpened path)
  let input := Text.ofBytes? (← (← IO.getStdin).readBinToEnd).toList
  match respond settings.oracle (← hostFor home settings.oracle input) input with
  | .ok answer => IO.println answer.compact; return 0
  | .error notice => tell notice; return 1
