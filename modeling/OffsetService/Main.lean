import OffsetService.Machine

/-!
# The program

The arguments and the variables go into a launch on this machine; what it prints, complains of and
exits with comes out of it.
-/

open OffsetService

/-- The program `qpdb-server`. -/
def main (arguments : List String) : IO UInt32 := do
  let names := LogFilter.variableName :: Parameter.all.map (·.variableName)
  let environment ← names.filterMapM fun name => do return (← IO.getEnv name).map (name, ·)
  let world ← Machine.world (.ofEnvironment environment)
  let exit ← Launch.run world arguments environment
  IO.print exit.output
  exit.complaint.forM IO.eprintln
  return exit.code.toUInt32
