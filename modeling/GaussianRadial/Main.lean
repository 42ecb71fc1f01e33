import GaussianRadial.CommandLine
import GaussianRadial.Report.ShortestNumbers

/-!
# The program
-/

namespace GaussianRadial

/-- Whether an action on files succeeded. -/
def succeeds (action : IO Unit) : IO Bool := do
  try
    action
    return true
  catch _ => return false

/-- What can be read from an open file. -/
def contentsOf (handle : IO.FS.Handle) : IO String := do
  try handle.readToEnd catch _ => return ""

/-- The files of the system. A directory can be opened and has no contents. -/
instance systemFiles : Files IO where
  read name := do
    try
      let handle ← IO.FS.Handle.mk name .read
      return some (← contentsOf handle)
    catch _ => return none
  clear name := succeeds (IO.FS.writeFile name "")
  append name text := do
    try
      let handle ← IO.FS.Handle.mk name .append
      if ← succeeds (handle.putStr text) then return .added else return .notAdded
    catch _ => return .notOpened

end GaussianRadial

def main (arguments : List String) : IO UInt32 := do
  let outcome ← GaussianRadial.CommandLine.run "whittaker" arguments
  IO.eprint outcome.printed
  return outcome.exitCode.toUInt32
