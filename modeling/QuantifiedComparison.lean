import QuantifiedComparison.Main
import QuantifiedComparison.Registry.Slots
import QuantifiedComparison.Session.Step
import QuantifiedComparison.Settings.Document
import QuantifiedComparison.Value.Document
import QuantifiedComparison.Proofs.Attempts
import QuantifiedComparison.Proofs.ProbeTraces
import QuantifiedComparison.Proofs.DoubleForm
import QuantifiedComparison.Proofs.DoubleOrder
import QuantifiedComparison.Proofs.ConversionType
import QuantifiedComparison.Proofs.WholeDouble
import QuantifiedComparison.Proofs.Optimized
import QuantifiedComparison.Proofs.SingleColumn
import QuantifiedComparison.Proofs.Answer
import QuantifiedComparison.Proofs.Independence
import QuantifiedComparison.Proofs.Membership
import QuantifiedComparison.Proofs.Strategies
import QuantifiedComparison.Proofs.Kleene
import QuantifiedComparison.Proofs.ThreeValued
import QuantifiedComparison.Proofs.ProbeValues
import QuantifiedComparison.Proofs.Pushdown
import QuantifiedComparison.Proofs.Noninterference
import QuantifiedComparison.Proofs.ColumnChanges
import QuantifiedComparison.Proofs.SessionChanges
import QuantifiedComparison.Proofs.LastingIndependence
import QuantifiedComparison.Proofs.Release
import QuantifiedComparison.Proofs.ConvertedKeys
import QuantifiedComparison.Proofs.Folding
import QuantifiedComparison.Proofs.Preparation
import QuantifiedComparison.Proofs.Instantiation
import QuantifiedComparison.Proofs.Places
import QuantifiedComparison.Proofs.LexicalScoping
import QuantifiedComparison.Proofs.Failures
import QuantifiedComparison.Proofs.LastingReadiness
import QuantifiedComparison.Proofs.DeclaredShape
import QuantifiedComparison.Proofs.BindingOnce
import QuantifiedComparison.Proofs.RegistryMap
import QuantifiedComparison.Proofs.RegistryRuns
import QuantifiedComparison.Proofs.Evaluatable
import QuantifiedComparison.Proofs.Conjunction
import QuantifiedComparison.Proofs.RowsRead
import QuantifiedComparison.Proofs.DoubleNumber
import QuantifiedComparison.Proofs.NearestDouble
import QuantifiedComparison.Proofs.NumericOrder
import QuantifiedComparison.Proofs.IntegerConversion
import QuantifiedComparison.Proofs.ExactArithmetic
import QuantifiedComparison.Proofs.ComparisonLaws
import QuantifiedComparison.Proofs.FirstSeen
import QuantifiedComparison.Proofs.PlannersView
import QuantifiedComparison.Proofs.QuotedText
import QuantifiedComparison.Proofs.NumeralText
import QuantifiedComparison.Proofs.SqlTokens
import QuantifiedComparison.Proofs.WrittenSql
import QuantifiedComparison.Proofs.IndentedLines
import QuantifiedComparison.Proofs.StoredText
import QuantifiedComparison.Proofs.DisplayedSql
import QuantifiedComparison.Proofs.CommandLineValues
import QuantifiedComparison.Proofs.Midnight
import QuantifiedComparison.Proofs.Hashing
