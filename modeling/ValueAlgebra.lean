import ValueAlgebra.Conversion.Mismatch
import ValueAlgebra.Conversion.Run
import ValueAlgebra.Conversion.Walk
import ValueAlgebra.Json.Text
import ValueAlgebra.Path.Set
import ValueAlgebra.Proofs.Agreement
import ValueAlgebra.Proofs.ArithmeticBounds
import ValueAlgebra.Proofs.Assertions
import ValueAlgebra.Proofs.CapsuleLaws
import ValueAlgebra.Proofs.CarriedMarks
import ValueAlgebra.Proofs.CompletedEquality
import ValueAlgebra.Proofs.CompletedParts
import ValueAlgebra.Proofs.CompletedSets
import ValueAlgebra.Proofs.Completion
import ValueAlgebra.Proofs.CrossedEnds
import ValueAlgebra.Proofs.EqualityCases
import ValueAlgebra.Proofs.EqualityLaws
import ValueAlgebra.Proofs.ErrorPaths
import ValueAlgebra.Proofs.Frames
import ValueAlgebra.Proofs.Idempotence
import ValueAlgebra.Proofs.InputOrder
import ValueAlgebra.Proofs.MarkRoundTrip
import ValueAlgebra.Proofs.MarkedRuns
import ValueAlgebra.Proofs.Modes
import ValueAlgebra.Proofs.Obtained
import ValueAlgebra.Proofs.PathRuns
import ValueAlgebra.Proofs.Predictions
import ValueAlgebra.Proofs.SameType
import ValueAlgebra.Proofs.SetEngine
import ValueAlgebra.Proofs.SetOrder
import ValueAlgebra.Proofs.SetRules
import ValueAlgebra.Proofs.Shapes
import ValueAlgebra.Proofs.TypeInstances
import ValueAlgebra.Proofs.UnifiedRuns
import ValueAlgebra.Proofs.ValueParts
import ValueAlgebra.Ty.Json
import ValueAlgebra.Value.Arithmetic
import ValueAlgebra.Value.MarkPaths
import ValueAlgebra.Value.Set
import ValueAlgebra.Proofs.SetAlgebra
import ValueAlgebra.Proofs.CanonicalForm
import ValueAlgebra.Proofs.CanonicalOrder
import ValueAlgebra.Proofs.Numerals
import ValueAlgebra.Proofs.Rebuilding
import ValueAlgebra.Proofs.Conformance
import ValueAlgebra.Proofs.NumberRoundTrip
import ValueAlgebra.Proofs.StoredTypes
import ValueAlgebra.Proofs.Obstacles
