import DoubleEntry.Report.Balances
import DoubleEntry.Report.Months
import DoubleEntry.Report.TrialBalance

/-! # The command line

The arguments name a file and a report. What is printed and how the program ends
follows from them and from the books that begin in that file.
-/

namespace DoubleEntry

inductive Report where
  | balances
  | trialBalance (kind : TrialBalance)
  | months
  deriving Repr, DecidableEq

def Report.render (ledger : Ledger) : Report → String
  | balances => ledger.balances
  | trialBalance kind => ledger.trialBalance kind
  | months => ledger.months

structure Request where
  file : String
  report : Report
  deriving Repr, DecidableEq

namespace Request

/-- The arguments behind a command, which may have two dashes among them that
    only mark what follows as no option. `none` stands for an option. -/
def operands : List String → Option (List String)
  | [] => some []
  | "--" :: rest => some rest
  | text :: rest =>
    if text.startsWith "-" ∧ text ≠ "-" then none else (operands rest).map (text :: ·)

def report? (command : String) (operands : List String) : Option Report :=
  match command, operands with
  | "balances", [] => some .balances
  | "months", [] => some .months
  | "tb", [] => some (.trialBalance .full)
  | "tb", [kind] => (TrialBalance.ofText? kind).map .trialBalance
  | _, _ => none

def ofFile? (file : String) : List String → Option Request
  | [] => none
  | command :: rest => do
    let report ← report? command (← operands rest)
    return ⟨file, report⟩

/-- Read the arguments. The file stands behind `-i`, in an argument of its own or
    in the same one, where an equals sign may come before it. -/
def ofArguments? : List String → Option Request
  | "-i" :: file :: rest =>
    if file.startsWith "-" ∧ file ≠ "-" then none else ofFile? file rest
  | argument :: rest =>
    match argument.toList with
    | '-' :: 'i' :: '=' :: file => ofFile? (String.ofList file) rest
    | '-' :: 'i' :: c :: file => ofFile? (String.ofList (c :: file)) rest
    | _ => none
  | [] => none

end Request

structure Outcome where
  exitCode : Nat
  output : String
  errors : String
  deriving Repr, DecidableEq

namespace Outcome

/-- The exit code for arguments that ask for nothing. -/
def usageCode : Nat := 2

def ofRequest (files : Files) (request : Request) : Outcome :=
  match (Ledger.read files request.file).result with
  | .ok ledger => ⟨0, request.report.render ledger, ""⟩
  | .error fault => ⟨1, "", fault.display ++ "\n"⟩

end Outcome

end DoubleEntry
