import ApiListing.Main
import ApiListing.Search
import ApiListing.Proofs.ConventionalScan
import ApiListing.Proofs.LineByLine
import ApiListing.Proofs.ListingFixpoint
import ApiListing.Proofs.Spans
import ApiListing.Proofs.Walks
import ApiListing.Proofs.StableDocuments
import ApiListing.Proofs.Rewrites
import ApiListing.Proofs.Insertion
import ApiListing.Proofs.Chaining
import ApiListing.Proofs.Lossless
import ApiListing.Proofs.ModifierOrder
import ApiListing.Proofs.Hiding
import ApiListing.Proofs.FilterOrder
import ApiListing.Proofs.RespelledScan
import ApiListing.Proofs.Frames
import ApiListing.Proofs.CodeBlocks
import ApiListing.Proofs.BracePairs
import ApiListing.Proofs.Boundaries
import ApiListing.Proofs.DocLines
import ApiListing.Proofs.ParameterLists
import ApiListing.Proofs.WalkOrder
import ApiListing.Proofs.TocRemoval
import ApiListing.Proofs.TocAbsence
import ApiListing.Proofs.HeadingShifts
import ApiListing.Proofs.EnumListings
import ApiListing.Proofs.Sections
import ApiListing.Proofs.DeclaredWords
import ApiListing.Proofs.SummaryRegions
import ApiListing.Proofs.PrintedDirectives
import ApiListing.Proofs.Markup
import ApiListing.Proofs.PrintedListings
import ApiListing.Proofs.StampedDates
import ApiListing.Proofs.Tiles
import ApiListing.Proofs.OffsetScan
import ApiListing.Proofs.CollapsedBlocks
