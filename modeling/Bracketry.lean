import Bracketry.Census
import Bracketry.Cli.Session
import Bracketry.Failure
import Bracketry.Json.Reader
import Bracketry.Json.Writer
import Bracketry.Lexeme.Lexer
import Bracketry.Main
import Bracketry.Proofs.Commands.Agreement
import Bracketry.Proofs.Commands.Checking
import Bracketry.Proofs.Commands.Folders
import Bracketry.Proofs.Messages.Annotating
import Bracketry.Proofs.Messages.Framing
import Bracketry.Proofs.Messages.Pointing
import Bracketry.Proofs.Nesting.Accounting
import Bracketry.Proofs.Nesting.Continuing
import Bracketry.Proofs.Nesting.Counting
import Bracketry.Proofs.Nesting.Locating
import Bracketry.Proofs.Nesting.Sketching
import Bracketry.Proofs.Records.Rewriting
import Bracketry.Proofs.Registers.Driving
import Bracketry.Proofs.Registers.Ending
import Bracketry.Proofs.Registers.Stacks
import Bracketry.Record.Choice
import Bracketry.Record.Envelope
import Bracketry.Report
import Bracketry.Settings
import Bracketry.Text.Quoted
import Bracketry.Tree.Builder
