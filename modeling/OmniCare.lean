import OmniCare.Resuming
import OmniCare.Confirmation
import OmniCare.Screening
import OmniCare.Pairing
import OmniCare.Answers
import OmniCare.Speaking
import OmniCare.Platform
import OmniCare.Workers
import OmniCare.Queues
import OmniCare.Appends
import OmniCare.Seeding
import OmniCare.Numbering
import OmniCare.Admission
import OmniCare.Transcripts
import OmniCare.Ownership
import OmniCare.PolicyNumbers
import OmniCare.Collecting
import OmniCare.Reporting
import OmniCare.Corrections
import OmniCare.Isolation
import OmniCare.Sources
import OmniCare.Indexing
import OmniCare.Settling
import OmniCare.Envelopes
import OmniCare.StatedAmounts
import OmniCare.Citations
import OmniCare.Rounding
import OmniCare.Settlement
import OmniCare.Governing
import OmniCare.Figures
import OmniCare.Decimals
import OmniCare.Breakdown
import OmniCare.Legible
import OmniCare.Restarts
import OmniCare.Spans
import OmniCare.Subscriptions
import OmniCare.RecursionLimit
import OmniCare.Twins
import OmniCare.Wordings
import OmniCare.Retrying
import OmniCare.Budget
import OmniCare.Reservations
import OmniCare.Utterances
import OmniCare.Sentences
import OmniCare.Unpacking
import OmniCare.Confidence
import OmniCare.MalformedCalls
import OmniCare.Verifying
import OmniCare.Comparisons
import OmniCare.Limiting
import OmniCare.Fusing
import OmniCare.Elision
import OmniCare.Markers
import OmniCare.SectionIds
import OmniCare.Sections
import OmniCare.Fallback
import OmniCare.SaidAmounts
import OmniCare.Misheard
import OmniCare.Identifying
import OmniCare.Surroundings
import OmniCare.Unwrapping
import OmniCare.Rewriting
import OmniCare.Escaped
import OmniCare.Stripping
import OmniCare.CallPage
import OmniCare.Resets
import OmniCare.Searching
