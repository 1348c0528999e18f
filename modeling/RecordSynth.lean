import RecordSynth.Behavior.Basic
import RecordSynth.Behavior.Selection
import RecordSynth.Comparator
import RecordSynth.Eval.Basic
import RecordSynth.Eval.Call
import RecordSynth.Eval.Display
import RecordSynth.Eval.Equality
import RecordSynth.Eval.Error
import RecordSynth.Eval.Hashing
import RecordSynth.Eval.Level
import RecordSynth.Eval.Machine
import RecordSynth.Eval.Record
import RecordSynth.Literal
import RecordSynth.Number.Binary64
import RecordSynth.Number.Decimal
import RecordSynth.Number.Power
import RecordSynth.Number.WordHash
import RecordSynth.Program.Artifact
import RecordSynth.Program.Basic
import RecordSynth.Program.Binding
import RecordSynth.Program.Emission
import RecordSynth.Program.Listing
import RecordSynth.Program.Placeholder
import RecordSynth.Record.Heap
import RecordSynth.Record.Inspect
import RecordSynth.Record.Primitive
import RecordSynth.Record.RecordType
import RecordSynth.Record.TypeTable
import RecordSynth.Roster.Basic
import RecordSynth.Roster.Lemmas
import RecordSynth.Source.ByteRange
import RecordSynth.Source.Fault
import RecordSynth.Source.Lexeme
import RecordSynth.Source.Reader
import RecordSynth.Source.Tiling
import RecordSynth.Source.Token
import RecordSynth.Source.Tree
import RecordSynth.Symbol
import RecordSynth.Synthesis.Library
import RecordSynth.Synthesis.Store
import RecordSynth.Synthesis.Workshop
import RecordSynth.Template
import RecordSynth.Text.Blank
import RecordSynth.Text.Display
import RecordSynth.Text.Hidden
import RecordSynth.Text.Inspect
import RecordSynth.Value
import RecordSynth.Proofs.Behavior.Construction
import RecordSynth.Proofs.Behavior.Display
import RecordSynth.Proofs.Behavior.Equality
import RecordSynth.Proofs.Eval.Correctness
import RecordSynth.Proofs.Eval.Direct
import RecordSynth.Proofs.Eval.Levels
import RecordSynth.Proofs.Eval.MachineSteps
import RecordSynth.Proofs.Eval.Outcome
import RecordSynth.Proofs.Eval.Simulation
import RecordSynth.Proofs.Program.Compilation
import RecordSynth.Proofs.Program.EmissionSteps
import RecordSynth.Proofs.Program.EmissionTrees
import RecordSynth.Proofs.Program.FirstUse
import RecordSynth.Proofs.Program.Layout
import RecordSynth.Proofs.Program.PlaceholderSpelling
import RecordSynth.Proofs.Program.Rebinding
import RecordSynth.Proofs.Program.Renaming
import RecordSynth.Proofs.Source.Digits
import RecordSynth.Proofs.Source.Erasure
import RecordSynth.Proofs.Source.Grammar
import RecordSynth.Proofs.Source.Lexing
import RecordSynth.Proofs.Source.Reading
import RecordSynth.Proofs.Source.RoundTrip
import RecordSynth.Proofs.Source.Writing
import RecordSynth.Proofs.Synthesis.Equipment
import RecordSynth.Proofs.Synthesis.Freshness
import RecordSynth.Proofs.Synthesis.History
import RecordSynth.Proofs.Synthesis.Installation
import RecordSynth.Proofs.Synthesis.Publication
import RecordSynth.Proofs.Synthesis.Interleaving
import RecordSynth.Proofs.Synthesis.Progress
import RecordSynth.Proofs.Synthesis.Races
import RecordSynth.Proofs.Synthesis.Totality
import RecordSynth.Proofs.Synthesis.Turns
import RecordSynth.Proofs.Template.Acceptance
import RecordSynth.Proofs.Template.Evaluation
import RecordSynth.Proofs.Template.Specialization
import RecordSynth.Proofs.Template.Trees
import RecordSynth.Proofs.Behavior.Symmetry
import RecordSynth.Proofs.Number.Conversion
import RecordSynth.Proofs.Behavior.Hashing
import RecordSynth.Proofs.Behavior.CanonicalForm
import RecordSynth.Proofs.Behavior.Equivalence
import RecordSynth.Proofs.Synthesis.Lineage
import RecordSynth.Proofs.Synthesis.Retention
import RecordSynth.Proofs.Behavior.FieldOrder
import RecordSynth.Proofs.Synthesis.Failure
import RecordSynth.Proofs.Synthesis.Calls
import RecordSynth.Proofs.Program.Balance
import RecordSynth.Proofs.Program.Soundness
import RecordSynth.Proofs.Eval.Safety
import RecordSynth.Proofs.Source.Derivation
import RecordSynth.Proofs.Source.Separation
import RecordSynth.Proofs.Source.Substitution
import RecordSynth.Proofs.Template.Commutation
import RecordSynth.Proofs.Synthesis.Additions
import RecordSynth.Proofs.Synthesis.Content
import RecordSynth.Proofs.Synthesis.Interchange
import RecordSynth.Proofs.Synthesis.UserMethods
import RecordSynth.Proofs.Source.Placement
import RecordSynth.Proofs.Program.Positions
import RecordSynth.Proofs.Synthesis.FieldResolution
import RecordSynth.Proofs.Synthesis.Success
import RecordSynth.Proofs.Program.FirstFault
import RecordSynth.Proofs.Symbol.Interning
import RecordSynth.Proofs.Program.FaultPlaces
import RecordSynth.Proofs.Program.Operands
import RecordSynth.Proofs.Template.Capacity
import RecordSynth.Proofs.Text.Escaping
import RecordSynth.Proofs.Behavior.PlainData
import RecordSynth.Proofs.Source.Spans
import RecordSynth.Proofs.Source.Respacing
import RecordSynth.Proofs.Behavior.Quiet
import RecordSynth.Proofs.Behavior.ReadOnly
import RecordSynth.Proofs.Behavior.Termination
import RecordSynth.Proofs.Source.Literals
import RecordSynth.Proofs.Source.Completion
import RecordSynth.Proofs.Source.Ways
import RecordSynth.Proofs.Source.Lookahead
import RecordSynth.Proofs.Source.Tracing
import RecordSynth.Proofs.Source.ViablePrefix
import RecordSynth.Proofs.Eval.ForwardRuns
import RecordSynth.Proofs.Program.Mentions
import RecordSynth.Proofs.Source.Nodes
import RecordSynth.Proofs.Program.FaultRanges
import RecordSynth.Proofs.Source.Cursor
import RecordSynth.Proofs.Source.Progress
