import ConfigSchema.Chain
import ConfigSchema.CommandLine.Outcome
import ConfigSchema.Main
import ConfigSchema.Proofs.DocumentEmission
import ConfigSchema.Proofs.DocumentMeaning
import ConfigSchema.Proofs.LoadedGraphs
import ConfigSchema.Proofs.References
import ConfigSchema.Proofs.ExpansionLimits
import ConfigSchema.Proofs.LoadedExpansions
import ConfigSchema.Proofs.OutlinePlaces
import ConfigSchema.Proofs.OutlineDepth
import ConfigSchema.Proofs.OutlinePaths
import ConfigSchema.Proofs.FileTrees
import ConfigSchema.Proofs.WriteSteps
import ConfigSchema.Proofs.AtomicWrites
import ConfigSchema.Proofs.LoadFailures
import ConfigSchema.Proofs.GenerationRuns
import ConfigSchema.Proofs.OutputAgreement
import ConfigSchema.Proofs.JsonStrings
import ConfigSchema.Proofs.JsonRoundTrip
import ConfigSchema.Proofs.DocumentText
import ConfigSchema.Proofs.PrintedTypes
import ConfigSchema.Proofs.Merging
import ConfigSchema.Proofs.DocumentSchemas
import ConfigSchema.Proofs.DeclarationOrder
import ConfigSchema.Proofs.MarkedTypes
import ConfigSchema.Proofs.LadderSources
import ConfigSchema.Proofs.WellFormedDocuments
import ConfigSchema.Proofs.BatchedMerges
import ConfigSchema.Proofs.InterfacePromises
import ConfigSchema.Proofs.MergeOrder
import ConfigSchema.Proofs.DescribedVariants
import ConfigSchema.Proofs.ElementLayers
import ConfigSchema.Proofs.AddedTypes
import ConfigSchema.Proofs.MarkSwitches
import ConfigSchema.Proofs.FragmentLines
import ConfigSchema.Proofs.NamedFiles
import ConfigSchema.Proofs.ReferenceLayers
import ConfigSchema.Proofs.SourceOrder
import ConfigSchema.Proofs.PatternFiles
import ConfigSchema.Proofs.InlineSources
import ConfigSchema.Proofs.IntrospectionSources
