import KeyInstall.Editing
import KeyInstall.Main
import KeyInstall.Proofs.Document.Frame
import KeyInstall.Proofs.Document.Refusal
import KeyInstall.Proofs.Installation.Atomicity
import KeyInstall.Proofs.Installation.Effect
import KeyInstall.Proofs.Installation.History
import KeyInstall.Proofs.Disk.Twins
import KeyInstall.Proofs.Document.Editing
import KeyInstall.Proofs.Document.KeyHeader
import KeyInstall.Proofs.Installation.Secrecy
import KeyInstall.Proofs.Program.Concealment
import KeyInstall.Proofs.Json.Respelling
import KeyInstall.Proofs.Json.Lexing
import KeyInstall.Proofs.Installation.Restatement
import KeyInstall.Proofs.Installation.Needs
import KeyInstall.Proofs.Installation.Preview
import KeyInstall.Proofs.Document.Accepting
import KeyInstall.Proofs.Program.Exits
import KeyInstall.Proofs.Path.Components
import KeyInstall.Proofs.Installation.Log
import KeyInstall.Proofs.Program.Verbosity
import KeyInstall.Proofs.CommandLine.Spellings
import KeyInstall.Proofs.Document.Literal
import KeyInstall.Proofs.Document.Rejecting
