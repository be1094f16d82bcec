import TextMate.Server.CommandLine

/-!
# The program

Reads the command line, writes help or a complaint, and otherwise announces the
start of the server and its tools.
-/

open TextMate Server

def main (arguments : List String) : IO UInt32 := do
  match Options.ofArguments arguments with
  | .error stop =>
      (← IO.getStdout).putStr stop.output
      (← IO.getStderr).putStr stop.complaint
      return UInt32.ofNat stop.code
  | .ok options =>
      IO.eprintln options.announcement
      for tool in Tool.all do
        IO.eprintln ("  " ++ tool.name)
      return 0
