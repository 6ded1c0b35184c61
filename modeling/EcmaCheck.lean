import EcmaCheck.Main
import EcmaCheck.Proofs.DepthLimit
import EcmaCheck.Proofs.Division
import EcmaCheck.Proofs.Insertion
import EcmaCheck.Proofs.MaximalMunch
import EcmaCheck.Proofs.Omission.Verdict
import EcmaCheck.Proofs.Spacing.Verdict
import EcmaCheck.Proofs.Positions
import EcmaCheck.Proofs.Sentinel
import EcmaCheck.Proofs.Surroundings
import EcmaCheck.Proofs.Tiling
import EcmaCheck.Proofs.Printed.Nest
import EcmaCheck.Proofs.Printed.Jump
import EcmaCheck.Proofs.Printed.NestedTemplate
import EcmaCheck.Proofs.Printed.Operation
import EcmaCheck.Proofs.Printed.CoverGrammar
import EcmaCheck.Proofs.Literals.LongestNumeral
import EcmaCheck.Proofs.Literals.NameSpelling
import EcmaCheck.Proofs.Literals.RegExpLiteral
import EcmaCheck.Proofs.Literals.StringLiteral
import EcmaCheck.Proofs.Literals.TemplateSpan
import EcmaCheck.Proofs.Progress
import EcmaCheck.Proofs.Verdict
import EcmaCheck.Proofs.FunctionDirective
import EcmaCheck.Proofs.CommandLine
import EcmaCheck.Proofs.ErrorOutput
import EcmaCheck.Proofs.Undecoded
import EcmaCheck.Proofs.Session
import EcmaCheck.Proofs.Printed.ArrowSpelling
import EcmaCheck.Proofs.Printed.Header
import EcmaCheck.Proofs.PlaceOrder
import EcmaCheck.Proofs.InStep
import EcmaCheck.Proofs.DepthBound
import EcmaCheck.Proofs.Truncation.Verdict
