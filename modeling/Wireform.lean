import Wireform.Binary
import Wireform.Field
import Wireform.Json.Shape
import Wireform.Timestamp
import Wireform.Toml
import Wireform.Proofs.Failure
import Wireform.Proofs.ListText.Replacement
import Wireform.Proofs.ListText.Slices
import Wireform.Proofs.Message
import Wireform.Proofs.Nullable
import Wireform.Proofs.Object
import Wireform.Proofs.Reencoding
import Wireform.Proofs.Session
import Wireform.Proofs.Timestamp
import Wireform.Proofs.VariantTable
