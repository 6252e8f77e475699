import Folio.Paginate.Run
import Folio.Service.App
import Folio.Proofs.Paginate.PageSections
import Folio.Proofs.Paginate.Cutting
import Folio.Proofs.Paginate.Conservation
import Folio.Proofs.Paginate.Greedy
import Folio.Proofs.Paginate.Heights
import Folio.Proofs.Paginate.Fit
import Folio.Proofs.Paginate.FewestPages
import Folio.Proofs.Paginate.Places
import Folio.Proofs.Paginate.PageNumbers
import Folio.Proofs.Paginate.BlankPages
import Folio.Proofs.Paginate.Locality
import Folio.Proofs.Paginate.OneAttempt
import Folio.Proofs.Paginate.SecondRun
import Folio.Proofs.Paginate.SafeArea
import Folio.Proofs.Paginate.Outlines
import Folio.Proofs.Paginate.Surroundings
import Folio.Proofs.Document.Cleaning
import Folio.Proofs.Service.Answers
import Folio.Proofs.Document.Sections
import Folio.Proofs.Document.MetaTags
import Folio.Proofs.Document.Acceptance
import Folio.Proofs.Document.Measures
import Folio.Proofs.Print.Plan
import Folio.Proofs.Document.BandHeights
import Folio.Proofs.Service.Preview
import Folio.Proofs.Markup.Acceptance
import Folio.Proofs.Document.NormalForm
import Folio.Proofs.Resource.Semicolons
import Folio.Proofs.Resource.Sheets
import Folio.Proofs.Document.LayoutText
import Folio.Proofs.Text.Lowered
import Folio.Proofs.Markup.Elements
import Folio.Proofs.Markup.RawText
import Folio.Proofs.Markup.ReadEvents
import Folio.Proofs.Markup.ReadTrees
import Folio.Proofs.Markup.Readings
import Folio.Proofs.Markup.WrittenNodes
import Folio.Proofs.Markup.Rereading
import Folio.Proofs.Resource.StrippedTrees
import Folio.Proofs.Resource.FastPath
import Folio.Proofs.Resource.LeftAddresses
import Folio.Proofs.Resource.StrippedOutlines
import Folio.Proofs.Resource.StyleBlocks
import Folio.Proofs.Resource.ImageCandidates
import Folio.Proofs.Resource.Spellings
import Folio.Proofs.Document.Wrapping
import Folio.Proofs.Sanitize.KeptAttributes
import Folio.Proofs.Service.Readability
import Folio.Proofs.Service.FailureDocument
import Folio.Proofs.Print.Arguments
