import Optical.Reader
import Optical.Source.Paced
import Optical.Proofs.Fingerprint.FastPath
import Optical.Proofs.Fingerprint.Staleness
import Optical.Proofs.Iso.Agreement
import Optical.Proofs.Iso.BestTable
import Optical.Proofs.Detection
import Optical.Proofs.Udf.Loops
import Optical.Proofs.Window.Cursor
import Optical.Proofs.Session
import Optical.Proofs.Source.Refusals
import Optical.Proofs.Source.Requests
import Optical.Proofs.Source.Portions
import Optical.Proofs.FileTree.Finding
import Optical.Proofs.Iso.AlternateNames
import Optical.Proofs.Iso.Areas
import Optical.Proofs.Iso.Records
import Optical.Proofs.Iso.WideNames
import Optical.Proofs.Iso.Footprint
import Optical.Proofs.Iso.Listings
import Optical.Proofs.Settings
import Optical.Proofs.Udf.Anchors
import Optical.Proofs.Udf.Directories
import Optical.Proofs.Udf.Dstrings
import Optical.Proofs.Udf.FileEntries
import Optical.Proofs.Udf.Truncation
import Optical.Proofs.Fingerprint.Spelling
import Optical.Proofs.Window.OnWornImage
