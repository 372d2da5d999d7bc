import HdlPorts.Declaration.Json
import HdlPorts.Declaration.Sketch
import HdlPorts.Netlist.Json
import HdlPorts.Report.Json
import HdlPorts.Report.Rendering
import HdlPorts.Session.Pipeline
import HdlPorts.Settings.Document
import HdlPorts.Proofs.Attempts
import HdlPorts.Proofs.Naming
import HdlPorts.Proofs.Rebuilding
import HdlPorts.Proofs.PortSteps
import HdlPorts.Proofs.Sessions
import HdlPorts.Proofs.Histories
import HdlPorts.Proofs.LastOutcome
import HdlPorts.Proofs.Batches
import HdlPorts.Proofs.Evaluation
import HdlPorts.Proofs.EntityRules
import HdlPorts.Proofs.PortLoop
import HdlPorts.Proofs.Acceptance
import HdlPorts.Proofs.Verdicts
import HdlPorts.Proofs.UnknownBits
import HdlPorts.Proofs.TargetWidth
import HdlPorts.Proofs.EntitySplit
import HdlPorts.Session.Schedule
import HdlPorts.Proofs.Renaming
import HdlPorts.Proofs.Schedules
import HdlPorts.Proofs.Interleaving
import HdlPorts.Proofs.DeclarationBytes
import HdlPorts.Proofs.Identifiers
import HdlPorts.Proofs.ValueTexts
import HdlPorts.Proofs.ListingSyntax
import HdlPorts.Proofs.Traversals
import HdlPorts.Proofs.BuiltEntities
import HdlPorts.Proofs.Listings
import HdlPorts.Proofs.ScheduledSteps
import HdlPorts.Proofs.Productions
import HdlPorts.Proofs.Numbers
import HdlPorts.Proofs.IntegerValues
import HdlPorts.Proofs.PackedForm
import HdlPorts.Proofs.LiteralTexts
import HdlPorts.Proofs.Reporting
import HdlPorts.Proofs.JsonTexts
import HdlPorts.Proofs.DocumentShapes
import HdlPorts.Proofs.Documents
import HdlPorts.Proofs.Definedness
import HdlPorts.Proofs.LiteralForms
import HdlPorts.Proofs.BasedLiterals
import HdlPorts.Proofs.Collisions
import HdlPorts.Proofs.EntityChecks
import HdlPorts.Proofs.VectorOperations
import HdlPorts.Proofs.VectorTexts
import HdlPorts.Proofs.Concatenations
import HdlPorts.Proofs.CompanionNames
import HdlPorts.Proofs.ImplicitZeros
import HdlPorts.Proofs.TextBytes
import HdlPorts.Proofs.LinePositions
import HdlPorts.Proofs.LineTexts
import HdlPorts.Proofs.Arenas
import HdlPorts.Proofs.SignalLists
import HdlPorts.Proofs.TakenPorts
import HdlPorts.Proofs.BuildOrder
import HdlPorts.Proofs.Excerpts
