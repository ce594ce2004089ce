import Formula.Calculator
import Formula.Decimal.Fixed

/-!
# The two console programs

`Repl` reads formulas line by line and answers each with its outcome. `FunctionTable`
prints the values of one formula over a fixed range. What they print is computed here ;
reading the input and printing are left to the caller.
-/

namespace Formula

/-- What a console program leaves behind. -/
structure ConsoleOutput where
  stdout : String
  stderr : String
  code : UInt32

namespace Repl

/-- What is printed before each line of input. -/
def prompt : String := "> "

/-- The lines of a text. Each ends with a line feed, save perhaps the last. -/
def linesOf : List Char → List (List Char)
  | [] => []
  | c :: text =>
    if c = '\n' then [] :: linesOf text
    else
      match linesOf text with
      | [] => [[c]]
      | line :: lines => (c :: line) :: lines

/-- The answer to a line : the outcome of its formula, or nothing for a blank line. -/
def answer (calculator : Calculator) (line : String) : String × Calculator :=
  if line.toList.all isBlank then ("", calculator)
  else
    let (outcome, calculator) := (calculator.compute line).value
    (outcome.text ++ "\n", calculator)

/-- The answers to some lines, each with the prompt for the next. -/
def answers : Calculator → List (List Char) → List String
  | _, [] => []
  | calculator, line :: lines =>
    let (text, calculator) := answer calculator (String.ofList line)
    text :: prompt :: answers calculator lines

/-- What is printed for a whole input. -/
def transcript (input : String) : ConsoleOutput :=
  let texts := answers (.new .standard) (linesOf input.toList)
  ⟨String.join (prompt :: texts), "", 0⟩

end Repl

namespace FunctionTable

/-- The formula that is shown if none is given. -/
def defaultFormula : String := "sin(x)*x"

/-- The range of the table. -/
def range : SampleRange :=
  ⟨-5.0, 5.0, 0.5, by decide +kernel⟩

/-- The line of a sample : a point with two decimal places, and a value with six. -/
def row (s : Sample) : String :=
  alignRight 8 (fixedText 2 s.x) ++ " | " ++
    (if s.y.isFinite then fixedText 6 s.y else "Undefined") ++ "\n"

/-- The table of a formula. -/
def table (formula : String) : ConsoleOutput :=
  match parse formula with
  | .error error => ⟨"", "Error: " ++ error.message ++ "\n", 1⟩
  | .ok tree =>
    let sampling : Sampling := ⟨tree, "x", range, .empty⟩
    let samples := sampling.run.value.samples.toList
    let header := alignRight 8 "x" ++ " | y = " ++ formula ++ "\n"
    ⟨String.join (header :: samples.map row), "", 0⟩

end FunctionTable

end Formula
