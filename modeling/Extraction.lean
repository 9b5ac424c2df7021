import Extraction.Enhancement
import Extraction.Logging
import Extraction.Proofs.CappedDefinitions
import Extraction.Proofs.DeclaredPart
import Extraction.Proofs.DepthCaps
import Extraction.Proofs.EpochMilliseconds
import Extraction.Proofs.ImageAnswers
import Extraction.Proofs.ListedSchemas
import Extraction.Proofs.MalformedTrees
import Extraction.Proofs.MediaTypes
import Extraction.Proofs.OutlineDates
import Extraction.Proofs.PromptParts
import Extraction.Proofs.RecognitionChain
import Extraction.Proofs.StrictMode
import Extraction.Proofs.TypeTexts
import Extraction.Proofs.TypedFailures
import Extraction.Proofs.ZuluTexts
import Extraction.Service
