import OnePass.CommandLine.Directory
import OnePass.Main
import OnePass.Proofs.Grammar
import OnePass.Proofs.Productions
import OnePass.Proofs.TreeWalk
import OnePass.Proofs.GoalStack
import OnePass.Proofs.Names
import OnePass.Proofs.Code
import OnePass.Proofs.Scanned
import OnePass.Proofs.Sentence
import OnePass.Proofs.Reading
import OnePass.Proofs.Translation
import OnePass.Proofs.SyntaxErrors
import OnePass.Proofs.SemanticErrors
import OnePass.Proofs.Evaluation
import OnePass.Proofs.Machine
import OnePass.Proofs.Preservation
import OnePass.Proofs.StackSafety
import OnePass.Proofs.LoopLabels
import OnePass.Proofs.NormalForm
import OnePass.Proofs.Renaming
import OnePass.Proofs.Lexicon
import OnePass.Proofs.Scanning
import OnePass.Proofs.Tiling
import OnePass.Proofs.LexicalErrors
import OnePass.Proofs.Printing
import OnePass.Proofs.Emission
import OnePass.Proofs.Completion
import OnePass.Proofs.Operands
import OnePass.Proofs.FailedCode
import OnePass.Proofs.Relocation
import OnePass.Proofs.Locality
import OnePass.Proofs.TableRuns
import OnePass.Proofs.Listing
import OnePass.Proofs.TrailingText
import OnePass.Proofs.Records
import OnePass.Proofs.Rewording
import OnePass.Proofs.Literals
import OnePass.Proofs.Inventory
import OnePass.Proofs.Invocation
import OnePass.Proofs.Sequencing
import OnePass.Proofs.Messages
import OnePass.Proofs.Cursor
