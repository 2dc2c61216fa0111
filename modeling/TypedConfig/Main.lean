import TypedConfig.Command.Arguments

/-! # The command line

Runs the command that the arguments give on the files of the system.
-/

namespace TypedConfig

def succeeds (action : IO Unit) : IO Bool :=
  try
    action
    return true
  catch _ => return false

def leadsSomewhere (path : String) : IO Bool :=
  succeeds do
    let _ ← IO.FS.realPath path

instance : FileSystem IO where
  isFile path := do
    if ← leadsSomewhere path then return !(← leadsSomewhere (path ++ "/."))
    else return false
  isDirectory path := do
    if ← leadsSomewhere path then leadsSomewhere (path ++ "/.") else return false
  read? path :=
    try return some (← IO.FS.readFile path)
    catch _ => return none
  write path text := succeeds (IO.FS.writeFile path text)
  makeDirectories path := succeeds (IO.FS.createDirAll path)

def Invocation.execute (i : Invocation) : IO UInt32 := do
  match ← ExceptT.run (i.run : Command.Work IO String) with
  | .ok shown =>
    IO.print shown
    return 0
  | .error e =>
    for d in e.diagnostics do
      for line in d.lines do
        IO.eprintln line
    return e.exitCode.toUInt32

end TypedConfig

open TypedConfig in
def main (args : List String) : IO UInt32 := do
  match Invocation.ofArguments args with
  | .ok i =>
    let named ← IO.getEnv "PIPETYPE_CONFIG"
    { i with config := i.config <|> named }.execute
  | .error e =>
    if e.exitCode = 0 then IO.println e.shown else IO.eprintln e.shown
    return e.exitCode.toUInt32
