import PackagePolicy.Main
import PackagePolicy.Repository.Builder
import PackagePolicy.Proofs.Version.Order
import PackagePolicy.Proofs.SpecTree.Condition
import PackagePolicy.Proofs.Environment.Queries
import PackagePolicy.Proofs.Environment.MaskReasons
import PackagePolicy.Proofs.Atom.EqualVersions
import PackagePolicy.Proofs.Environment.EqualEntries
import PackagePolicy.Proofs.PackageSet.References
import PackagePolicy.Proofs.Atom.Spelling
import PackagePolicy.Proofs.Atom.WellFormed
import PackagePolicy.Proofs.Repository.Releases
import PackagePolicy.Proofs.SpecTree.Grammar
import PackagePolicy.Proofs.Entry.Spelling
import PackagePolicy.Proofs.Environment.EntryArguments
import PackagePolicy.Proofs.Repository.Additions
import PackagePolicy.Proofs.Repository.PrintedForms
import PackagePolicy.Proofs.Repository.Descriptions
import PackagePolicy.Proofs.Entry.WrittenForms
import PackagePolicy.Proofs.Environment.Failures
import PackagePolicy.Proofs.Environment.Independence
import PackagePolicy.Proofs.Mask.Files
import PackagePolicy.Proofs.Mask.Entries
import PackagePolicy.Proofs.Environment.Unconfigured
import PackagePolicy.Proofs.Version.Components
import PackagePolicy.Proofs.Version.Extensions
import PackagePolicy.Proofs.Version.WrittenParts
import PackagePolicy.Proofs.Hashing
import PackagePolicy.Proofs.Database.EntryAtoms
import PackagePolicy.Proofs.Repository.Histories
import PackagePolicy.Proofs.Keyword.Histories
import PackagePolicy.Proofs.Environment.Acceptance
import PackagePolicy.Proofs.Environment.UseFlags
import PackagePolicy.Proofs.Environment.WiderAcceptance
import PackagePolicy.Proofs.SpecTree.Calls
import PackagePolicy.Proofs.SpecTree.Rendering
import PackagePolicy.Proofs.Config.Reading
import PackagePolicy.Proofs.Config.Ranking
import PackagePolicy.Proofs.Environment.Calls
import PackagePolicy.Proofs.PackageSet.BuiltIn
import PackagePolicy.Proofs.PackageSet.Tables
import PackagePolicy.Proofs.PackageSet.Names
import PackagePolicy.Proofs.Environment.SingleRepository
import PackagePolicy.Proofs.Config.Parts
import PackagePolicy.Proofs.Environment.DeclaredKeywords
