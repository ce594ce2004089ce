import Formula.Console

/-!
# Command line

Without arguments, a calculator that reads formulas from the standard input. With `table`
and perhaps a formula, the table of the formula.
-/

namespace Formula

/-- Answer the lines of the standard input as they come. -/
partial def answerLines (input output : IO.FS.Stream) (calculator : Calculator) : IO Unit := do
  let line ← input.getLine
  unless line.isEmpty do
    let (text, calculator) := Repl.answer calculator line
    output.putStr (text ++ Repl.prompt)
    output.flush
    answerLines input output calculator

/-- Print what a console program leaves behind. -/
def ConsoleOutput.print (result : ConsoleOutput) : IO UInt32 := do
  IO.print result.stdout
  IO.eprint result.stderr
  return result.code

/-- Run the program that the arguments name. -/
def runCommand (args : List String) : IO UInt32 := do
  match args with
  | [] =>
    let output ← IO.getStdout
    output.putStr Repl.prompt
    output.flush
    answerLines (← IO.getStdin) output (.new .standard)
    return 0
  | command :: operands =>
    if command = "table" then
      (FunctionTable.table (operands.headD FunctionTable.defaultFormula)).print
    else
      IO.eprintln "usage: formula [table [FORMULA]]"
      return 1

end Formula

def main (args : List String) : IO UInt32 :=
  Formula.runCommand args
