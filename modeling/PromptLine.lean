import PromptLine.Unicode.Alphanumeric
import PromptLine.Unicode.CaseMapping
import PromptLine.Charset.Delivery
import PromptLine.Key.Keymap
import PromptLine.Key.Input
import PromptLine.Line.Buffer
import PromptLine.Line.KillRing
import PromptLine.Line.Motion
import PromptLine.History
import PromptLine.Config
import PromptLine.Command
import PromptLine.Action
import PromptLine.Mode
import PromptLine.Session
import PromptLine.Logging
import PromptLine.Proofs.Charset.RoundTrip
import PromptLine.Proofs.Charset.Viable
import PromptLine.Proofs.Key.Resolution
import PromptLine.Proofs.Key.Conservation
import PromptLine.Proofs.Key.Unnested
import PromptLine.Proofs.Key.Stores
import PromptLine.Proofs.Editor.ChunkBoundaries
import PromptLine.Proofs.Action.SearchSession
import PromptLine.Proofs.Action.OperatorRanges
import PromptLine.Proofs.Editor.Keystrokes
import PromptLine.Proofs.Editor.Operators
import PromptLine.Proofs.Action.CommandCursor
import PromptLine.Proofs.Editor.CommandMode
import PromptLine.Proofs.Mode.PlainText
import PromptLine.Proofs.Editor.SearchTyping
import PromptLine.Proofs.Action.HistoryDraft
import PromptLine.Proofs.Editor.LineEnds
import PromptLine.Proofs.Mode.UnboundKeys
import PromptLine.Proofs.Mode.AddedKeys
import PromptLine.Proofs.Editor.Record
import PromptLine.Proofs.Editor.MaskedDrafts
import PromptLine.Proofs.Editor.MetaChords
import PromptLine.Proofs.Editor.TextEntry
import PromptLine.Proofs.Mode.Declarations
import PromptLine.Proofs.Editor.WayOut
import PromptLine.Proofs.Editor.RefusedBytes
import PromptLine.Proofs.Mode.DeviceKeys
import PromptLine.Proofs.Session.Events
import PromptLine.Proofs.Session.Gate
import PromptLine.Proofs.Editor.FailingScreen
import PromptLine.Proofs.Action.SearchBackspace
import PromptLine.Proofs.Line.IndexedMotions
import PromptLine.Proofs.Action.PartialOperations
import PromptLine.Proofs.Editor.PartialOperations
import PromptLine.Proofs.Line.Words
import PromptLine.Proofs.Line.RangeOperations
import PromptLine.Proofs.Action.PutBack
import PromptLine.Proofs.Editor.PutBack
import PromptLine.Proofs.Editor.Shorthand
import PromptLine.Proofs.Charset.Consumers
import PromptLine.Proofs.Key.CutReports
import PromptLine.Proofs.Line.LatestTexts
import PromptLine.Proofs.Editor.FocusedKeys
import PromptLine.Proofs.Line.Halves
import PromptLine.Proofs.Config.Spellings
import PromptLine.Proofs.Editor.KeyTables
import PromptLine.Proofs.Editor.Faults
