import Listfile.Folder
import Listfile.Main
import Listfile.Segment.Tokens
import Listfile.Source.Pieces
import Listfile.Proofs.Scanner
import Listfile.Proofs.Scanner.Quoted
import Listfile.Proofs.Scanner.Word
import Listfile.Proofs.Scanner.Bracket
import Listfile.Proofs.Scanner.Gap
import Listfile.Proofs.Scanner.Enter
import Listfile.Proofs.Scanner.Machine
import Listfile.Proofs.Scanner.Next
import Listfile.Proofs.Delivery
import Listfile.Proofs.Chunking
import Listfile.Proofs.Lexeme
import Listfile.Proofs.Lossless
import Listfile.Proofs.Positions
import Listfile.Proofs.Bom
import Listfile.Proofs.Lexer
import Listfile.Proofs.Machine
import Listfile.Proofs.Progress
import Listfile.Proofs.Tokens
import Listfile.Proofs.Restart
import Listfile.Proofs.Failure
import Listfile.Proofs.ExitStatus
import Listfile.Proofs.Blanks
import Listfile.Proofs.History
import Listfile.Proofs.InPlace
import Listfile.Proofs.Lookahead
import Listfile.Proofs.Safety
import Listfile.Proofs.Delimited
import Listfile.Proofs.Words
import Listfile.Proofs.LineEnds
import Listfile.Proofs.Drafts
import Listfile.Proofs.LineComments
import Listfile.Proofs.Sniff
import Listfile.Proofs.Relexing
import Listfile.Proofs.Refills
import Listfile.Proofs.Capacity
import Listfile.Proofs.Options
import Listfile.Proofs.TokenLines
