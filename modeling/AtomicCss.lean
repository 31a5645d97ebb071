import AtomicCss.Class.Declaration
import AtomicCss.Class.Direction
import AtomicCss.Class.Dynamic
import AtomicCss.Class.Entry
import AtomicCss.Class.Expansion
import AtomicCss.Class.Rule
import AtomicCss.CommandLine
import AtomicCss.Compile.Block
import AtomicCss.Compile.Class
import AtomicCss.Compile.Scope
import AtomicCss.Compile.Sheet
import AtomicCss.Compile.Variable
import AtomicCss.Condition.Basic
import AtomicCss.Condition.Contextual
import AtomicCss.Config
import AtomicCss.Decimal.Binary
import AtomicCss.Decimal.Reader
import AtomicCss.Decimal.Shortest
import AtomicCss.Definition
import AtomicCss.Digest
import AtomicCss.Document.Error
import AtomicCss.Document.Load
import AtomicCss.Document.Shape
import AtomicCss.Document.Value
import AtomicCss.Error
import AtomicCss.Json.Basic
import AtomicCss.Json.Number
import AtomicCss.Json.Parser
import AtomicCss.Json.Printer
import AtomicCss.Keyed
import AtomicCss.Location
import AtomicCss.Main
import AtomicCss.Merge
import AtomicCss.Naming
import AtomicCss.Priority
import AtomicCss.Processing
import AtomicCss.Proofs.Absorption
import AtomicCss.Proofs.Affixes
import AtomicCss.Proofs.Alternatives
import AtomicCss.Proofs.BlockIdentity
import AtomicCss.Proofs.Boundary
import AtomicCss.Proofs.ByteScan
import AtomicCss.Proofs.CanonicalNumber
import AtomicCss.Proofs.Cascade
import AtomicCss.Proofs.ClassEntries
import AtomicCss.Proofs.ClassSources
import AtomicCss.Proofs.ClosestNames
import AtomicCss.Proofs.Compilation
import AtomicCss.Proofs.ConditionBlocks
import AtomicCss.Proofs.ConditionBundle
import AtomicCss.Proofs.ConditionParts
import AtomicCss.Proofs.ConditionReading
import AtomicCss.Proofs.ConditionText
import AtomicCss.Proofs.Conflicts
import AtomicCss.Proofs.ContentAddress
import AtomicCss.Proofs.Deprecation
import AtomicCss.Proofs.Dimension
import AtomicCss.Proofs.EditDistance
import AtomicCss.Proofs.Emission
import AtomicCss.Proofs.EmittedClasses
import AtomicCss.Proofs.Expanding
import AtomicCss.Proofs.ExposedTokens
import AtomicCss.Proofs.ExposedValues
import AtomicCss.Proofs.Exposure
import AtomicCss.Proofs.FailedCompile
import AtomicCss.Proofs.Failures
import AtomicCss.Proofs.Flatten
import AtomicCss.Proofs.Forbidden
import AtomicCss.Proofs.Idempotence
import AtomicCss.Proofs.IdleBlanks
import AtomicCss.Proofs.ImportantMark
import AtomicCss.Proofs.Layers
import AtomicCss.Proofs.LeafPaths
import AtomicCss.Proofs.Lexed
import AtomicCss.Proofs.LineParts
import AtomicCss.Proofs.Lookups
import AtomicCss.Proofs.MarkStays
import AtomicCss.Proofs.MarkTransparency
import AtomicCss.Proofs.MarkedParts
import AtomicCss.Proofs.Meanings
import AtomicCss.Proofs.Merge
import AtomicCss.Proofs.MirroredSides
import AtomicCss.Proofs.NameText
import AtomicCss.Proofs.NearestDecimal
import AtomicCss.Proofs.NestedConditions
import AtomicCss.Proofs.NestedVars
import AtomicCss.Proofs.NormalCharacters
import AtomicCss.Proofs.NormalText
import AtomicCss.Proofs.NumberFault
import AtomicCss.Proofs.NumberParts
import AtomicCss.Proofs.NumberText
import AtomicCss.Proofs.NumberValue
import AtomicCss.Proofs.OwnClasses
import AtomicCss.Proofs.Packing
import AtomicCss.Proofs.PlainNumber
import AtomicCss.Proofs.PropertyWords
import AtomicCss.Proofs.PseudoElementParts
import AtomicCss.Proofs.PseudoElementScope
import AtomicCss.Proofs.QuotedContent
import AtomicCss.Proofs.ReadBack
import AtomicCss.Proofs.Reading
import AtomicCss.Proofs.Rearranging
import AtomicCss.Proofs.ReferenceFree
import AtomicCss.Proofs.References
import AtomicCss.Proofs.RegistrationOrder
import AtomicCss.Proofs.Representation
import AtomicCss.Proofs.Respelling
import AtomicCss.Proofs.Rewarned
import AtomicCss.Proofs.Rewriting
import AtomicCss.Proofs.RootBlocks
import AtomicCss.Proofs.Rounding
import AtomicCss.Proofs.RuleCore
import AtomicCss.Proofs.RuleOrder
import AtomicCss.Proofs.RuleSources
import AtomicCss.Proofs.RuleText
import AtomicCss.Proofs.RuntimeValues
import AtomicCss.Proofs.Sealed
import AtomicCss.Proofs.Separation
import AtomicCss.Proofs.ShadowOffsets
import AtomicCss.Proofs.SharedRegistry
import AtomicCss.Proofs.SourceOrder
import AtomicCss.Proofs.Sources
import AtomicCss.Proofs.Spellings
import AtomicCss.Proofs.Splicing
import AtomicCss.Proofs.StableLookups
import AtomicCss.Proofs.StackedRules
import AtomicCss.Proofs.Targets
import AtomicCss.Proofs.TextFaults
import AtomicCss.Proofs.ThemeOrder
import AtomicCss.Proofs.TightRules
import AtomicCss.Proofs.Tiling
import AtomicCss.Proofs.Tokens
import AtomicCss.Proofs.TwoRuns
import AtomicCss.Proofs.UnresolvedFault
import AtomicCss.Proofs.Unsetting
import AtomicCss.Proofs.VarDefaults
import AtomicCss.Proofs.WarningLog
import AtomicCss.Proofs.WrittenEnd
import AtomicCss.Proofs.WrittenRefs
import AtomicCss.Property.Group
import AtomicCss.Property.Name
import AtomicCss.Property.Shorthand
import AtomicCss.Property.Unit
import AtomicCss.Registry
import AtomicCss.Stylesheet
import AtomicCss.Suggestion
import AtomicCss.Text.Affix
import AtomicCss.Text.Blank
import AtomicCss.Text.Printable
import AtomicCss.Text.TopLevel
import AtomicCss.Token.Basic
import AtomicCss.Token.Scan
import AtomicCss.Validation
import AtomicCss.Value.Basic
import AtomicCss.Value.Fault
import AtomicCss.Value.Normalize
import AtomicCss.Value.Number
import AtomicCss.Value.Shown
