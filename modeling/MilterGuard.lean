import MilterGuard.AddressStability
import MilterGuard.AnalysisActivity
import MilterGuard.WriteFailures
import MilterGuard.RecipientRemoval
import MilterGuard.SiblingMasking
import MilterGuard.ExactCapture
import MilterGuard.CommandIsolation
import MilterGuard.AnnotationForging
import MilterGuard.MemoryLedger
import MilterGuard.StageRules
import MilterGuard.ReputationInvariants
import MilterGuard.BootstrapFlight
import MilterGuard.CoalescedLookups
import MilterGuard.ListExclusion
import MilterGuard.LearningRules
import MilterGuard.AttachmentBoundaries
import MilterGuard.CommandBodies
import MilterGuard.MailboxHistory
import MilterGuard.ArchiveRoundTrip
import MilterGuard.AuthenticationEvidence
import MilterGuard.ColourMemo
import MilterGuard.CascadeWinners
import MilterGuard.SenderMatching
import MilterGuard.DeclaredNames
import MilterGuard.AnnotatedSegments
import MilterGuard.CountedTexts
import MilterGuard.WellFormedReplies
import MilterGuard.BoundedResponses
import MilterGuard.CssEscapes
