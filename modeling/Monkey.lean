import Monkey.Text.Utf8
import Monkey.Text.Newline
import Monkey.Token.Display
import Monkey.Token.Request
import Monkey.Node.Equality
import Monkey.Node.Canonical
import Monkey.Node.Walk
import Monkey.Node.Category
import Monkey.Node.Dump
import Monkey.Grammar.Parse
import Monkey.Parser.Call
import Monkey.Session
import Monkey.Command.Perform
import Monkey.Command.Run
import Monkey.Proofs.LongNumber
import Monkey.Proofs.Idempotence
import Monkey.Proofs.SourceTokens
import Monkey.Proofs.Composition
import Monkey.Proofs.FirstError
import Monkey.Proofs.TokenBoundary
import Monkey.Proofs.CursorRequests
import Monkey.Proofs.WindowCalls
import Monkey.Proofs.Outcome
import Monkey.Proofs.InputAgreement
import Monkey.Proofs.SessionAnswers
import Monkey.Proofs.LogSettings
import Monkey.Proofs.Termination
import Monkey.Proofs.NestingLimit
import Monkey.Proofs.StackLimit
import Monkey.Proofs.RemovedRules
import Monkey.Proofs.Preorder
import Monkey.Proofs.DumpOfProgram
import Monkey.Proofs.Indentation
import Monkey.Proofs.TokenDump
import Monkey.Main
