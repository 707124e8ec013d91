import DecisionTreeC.CommandLine.Run
import DecisionTreeC.Json.Codec

/-!
The program itself: the command line on the disk and the terminal of the machine.
-/
namespace DecisionTreeC

def FileError.ofIO : IO.Error → FileError
  | .noFileOrDirectory .. => .notFound
  | .alreadyExists .. => .alreadyExists
  | .inappropriateType _ code _ => if code = 21 then .isDirectory else .notDirectory
  | fault => .other (toString fault)

def Disk.machine : Disk IO where
  read path := do
    try
      return .ok (← IO.FS.readBinFile path)
    catch fault =>
      return .error (.ofIO fault)
  write path bytes := do
    try
      IO.FS.writeBinFile path bytes
      return .ok ()
    catch fault =>
      return .error (.ofIO fault)
  makeDirectory path := do
    try
      IO.FS.createDir path
      return .ok ()
    catch fault =>
      return .error (.ofIO fault)
  isDirectory path := do
    try
      let place ← IO.FS.realPath path
      place.isDir
    catch _ =>
      return false

def Terminal.machine : Terminal IO where
  print channel text := do
    try
      let stream ← match channel with
        | .out => IO.getStdout
        | .err => IO.getStderr
      stream.putStr text
      stream.flush
      return .ok ()
    catch fault =>
      return .error (.ofIO fault)

end DecisionTreeC

open DecisionTreeC in
def main (arguments : List String) : IO UInt32 := do
  return (← CommandLine.perform Json.standard Disk.machine Terminal.machine arguments).toUInt32
