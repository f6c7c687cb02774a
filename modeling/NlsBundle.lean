import NlsBundle.CommandLine.Basic
import NlsBundle.CommandLine.Parse
import NlsBundle.CommandLine.Programs
import NlsBundle.Conversion
import NlsBundle.Declaration
import NlsBundle.Failure
import NlsBundle.FileTree
import NlsBundle.Main
import NlsBundle.MessageClass
import NlsBundle.Path
import NlsBundle.Pattern.Basic
import NlsBundle.Pattern.Match
import NlsBundle.Pattern.Parser
import NlsBundle.Proofs.Conversion.Listing
import NlsBundle.Proofs.Conversion.Phases
import NlsBundle.Proofs.Conversion.Plan
import NlsBundle.Proofs.Conversion.Pool
import NlsBundle.Proofs.Conversion.Refusal
import NlsBundle.Proofs.Conversion.Split
import NlsBundle.Proofs.Declaration.Naming
import NlsBundle.Proofs.Declaration.Selection
import NlsBundle.Proofs.FileTree.Change
import NlsBundle.Proofs.MessageClass.BlankLine
import NlsBundle.Proofs.MessageClass.Brace
import NlsBundle.Proofs.MessageClass.Edit
import NlsBundle.Proofs.Name
import NlsBundle.Proofs.Path.Normal
import NlsBundle.Proofs.Path.Relative
import NlsBundle.Proofs.Pattern.Gapped
import NlsBundle.Proofs.Pattern.Reading
import NlsBundle.Proofs.Pattern.Search
import NlsBundle.Proofs.Rule.Build
import NlsBundle.Proofs.Rule.Order
import NlsBundle.Proofs.Search.Answer
import NlsBundle.Proofs.Search.Command
import NlsBundle.Proofs.Session.Additions
import NlsBundle.Proofs.Session.Effect
import NlsBundle.Proofs.Settings.Decoding
import NlsBundle.Proofs.Settings.ReadBack
import NlsBundle.Proofs.Settings.Reading
import NlsBundle.Proofs.Settings.Written
import NlsBundle.Proofs.Setup.Archive
import NlsBundle.Proofs.Setup.Module
import NlsBundle.Proofs.Setup.Run
import NlsBundle.Proofs.Sexagesimal.Canonical
import NlsBundle.Proofs.Template
import NlsBundle.Proofs.Text.Replace
import NlsBundle.Proofs.Text.Row
import NlsBundle.Proofs.Text.Separator
import NlsBundle.Proofs.Text.Trim
import NlsBundle.Proofs.Usage.Detection
import NlsBundle.Proofs.Usage.Import
import NlsBundle.Proofs.Usage.InsertedKey
import NlsBundle.Proofs.Usage.Outline
import NlsBundle.Proofs.Usage.Passage
import NlsBundle.Proofs.Usage.Qualified
import NlsBundle.Proofs.Usage.Scan
import NlsBundle.Proofs.Usage.Scene
import NlsBundle.Proofs.Usage.Splice
import NlsBundle.Proofs.Usage.StaticImport
import NlsBundle.Proofs.Usage.Step
import NlsBundle.Rule
import NlsBundle.Search
import NlsBundle.Session
import NlsBundle.Settings
import NlsBundle.Setup
import NlsBundle.Sexagesimal
import NlsBundle.ShellWords
import NlsBundle.Template
import NlsBundle.Text.Basic
import NlsBundle.Text.Blank
import NlsBundle.Text.CharRange
import NlsBundle.Text.Line
import NlsBundle.Text.Occurrence
import NlsBundle.Text.Printable
import NlsBundle.Text.Quoted
import NlsBundle.Text.WordChar
import NlsBundle.Usage.Convert
import NlsBundle.Usage.Splice
