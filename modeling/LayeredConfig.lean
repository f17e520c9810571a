import LayeredConfig.Config.Basic
import LayeredConfig.Plain.Cast
import LayeredConfig.Plain.Json
import LayeredConfig.Value.Build
import LayeredConfig.Value.Placed
import LayeredConfig.Value.Sequence
import LayeredConfig.Yaml.Document
import LayeredConfig.Proofs.Resolver.Action
import LayeredConfig.Proofs.Resolver.Consultation
import LayeredConfig.Proofs.Resolver.Simulation
import LayeredConfig.Proofs.Resolver.History
import LayeredConfig.Proofs.Lookup
import LayeredConfig.Proofs.Path
import LayeredConfig.Proofs.Resolver.Account
import LayeredConfig.Proofs.Resolver.Solution
import LayeredConfig.Proofs.Resolved
import LayeredConfig.Proofs.Resolver.Resolved
import LayeredConfig.Proofs.Resolver.Transparency
import LayeredConfig.Proofs.Resolver.Termination
import LayeredConfig.Proofs.Resolver.Rules
import LayeredConfig.Proofs.Resolver.Isolation
import LayeredConfig.Proofs.Resolver.Amount
import LayeredConfig.Proofs.Members
import LayeredConfig.Proofs.Tree
import LayeredConfig.Proofs.Layer
import LayeredConfig.Proofs.Fallback
import LayeredConfig.Proofs.Resolver.Override
import LayeredConfig.Proofs.Resolver.Cycle
import LayeredConfig.Proofs.Resolver.Leftover
import LayeredConfig.Proofs.Resolver.Stationary
import LayeredConfig.Proofs.Resolver.Frame
import LayeredConfig.Proofs.Resolver.Idempotent
import LayeredConfig.Proofs.Resolver.Transfer
import LayeredConfig.Proofs.Resolver.Leniency
import LayeredConfig.Proofs.Resolver.Unbroken
import LayeredConfig.Proofs.Resolver.Conservative
import LayeredConfig.Proofs.Reordered
import LayeredConfig.Proofs.Resolver.Reordering
import LayeredConfig.Proofs.Json.Spelling
import LayeredConfig.Proofs.Json.View
import LayeredConfig.Proofs.Float.Conversion
import LayeredConfig.Proofs.Plain.RoundTrip
import LayeredConfig.Proofs.Json.Sorted
import LayeredConfig.Proofs.Json.Canonical
import LayeredConfig.Proofs.Resolver.InPlace
import LayeredConfig.Proofs.Resolver.Origin
import LayeredConfig.Proofs.Resolver.Crossing
import LayeredConfig.Proofs.Numeral
import LayeredConfig.Proofs.Fragments
import LayeredConfig.Proofs.Reads
import LayeredConfig.Proofs.Plain.Entries
import LayeredConfig.Proofs.Yaml.Guarded
import LayeredConfig.Proofs.Yaml.Lexeme
import LayeredConfig.Proofs.Yaml.Scanner
import LayeredConfig.Proofs.Yaml.Nodes
import LayeredConfig.Proofs.Yaml.Store
import LayeredConfig.Proofs.Yaml.Values
import LayeredConfig.Proofs.Yaml.Spans
import LayeredConfig.Proofs.Yaml.Data
import LayeredConfig.Proofs.Yaml.Document
import LayeredConfig.Proofs.JoinedPath
import LayeredConfig.Proofs.WholeNumber
import LayeredConfig.Proofs.DurationText
import LayeredConfig.Proofs.Relaid
import LayeredConfig.Proofs.Alike
import LayeredConfig.Proofs.Resolver.Discipline
import LayeredConfig.Proofs.FloatText
