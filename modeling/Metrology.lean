import Metrology.Main
import Metrology.TypedQuantity
import Metrology.Proofs.AlgebraAgreement
import Metrology.Proofs.BinaryScales
import Metrology.Proofs.ConfiguredTable
import Metrology.Proofs.ContractAgreement
import Metrology.Proofs.ConversionRange
import Metrology.Proofs.DecimalGrid
import Metrology.Proofs.DefinitionAgreement
import Metrology.Proofs.DefinitionReach
import Metrology.Proofs.DigitSeparators
import Metrology.Proofs.DigitwiseRounding
import Metrology.Proofs.DimensionLaws
import Metrology.Proofs.DimensionSoundness
import Metrology.Proofs.ErrorLocalisation
import Metrology.Proofs.ErrorRanges
import Metrology.Proofs.EvaluationFaults
import Metrology.Proofs.FactorPower
import Metrology.Proofs.FiniteNumbers
import Metrology.Proofs.HexadecimalLiteral
import Metrology.Proofs.Inlining
import Metrology.Proofs.IntegerLiteral
import Metrology.Proofs.JsonText
import Metrology.Proofs.LiteralDefects
import Metrology.Proofs.LiteralOperands
import Metrology.Proofs.LiteralRecognition
import Metrology.Proofs.LiteralSpellings
import Metrology.Proofs.NameResolution
import Metrology.Proofs.NameSubstitution
import Metrology.Proofs.NearestConfig
import Metrology.Proofs.NumberToken
import Metrology.Proofs.PowersOfTwo
import Metrology.Proofs.PrintedSymbol
import Metrology.Proofs.ReadingSteps
import Metrology.Proofs.RenderedTree
import Metrology.Proofs.SerializedData
import Metrology.Proofs.SessionValidity
import Metrology.Proofs.SignificantText
import Metrology.Proofs.Spacing
import Metrology.Proofs.SpanFaithfulness
import Metrology.Proofs.TableHistory
import Metrology.Proofs.Tokenization
import Metrology.Proofs.TypedSimulation
import Metrology.Proofs.UnitLaws
import Metrology.Proofs.UnitText
import Metrology.Proofs.ViablePrefix
import Metrology.Proofs.WholeText
