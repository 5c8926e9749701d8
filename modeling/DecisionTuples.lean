import DecisionTuples.Codec.Feature
import DecisionTuples.Codec.Path
import DecisionTuples.Json.Reader
import DecisionTuples.Main
import DecisionTuples.Number.Text
import DecisionTuples.Proofs.Engine.Errors
import DecisionTuples.Proofs.Engine.Exchange
import DecisionTuples.Proofs.Engine.Paths
import DecisionTuples.Proofs.Engine.Slots
import DecisionTuples.Proofs.Feature.Respelling
import DecisionTuples.Proofs.Grammar.Displayed
import DecisionTuples.Proofs.Grammar.Furthest
import DecisionTuples.Proofs.Grammar.InStep
import DecisionTuples.Proofs.Grammar.Outcome
import DecisionTuples.Proofs.Grammar.RoundTrip
import DecisionTuples.Proofs.Json.Limits
import DecisionTuples.Proofs.Scope
import DecisionTuples.Proofs.Tuple.Bare
import DecisionTuples.Proofs.Tuple.Meeting
import DecisionTuples.Proofs.Tuple.Symmetry
