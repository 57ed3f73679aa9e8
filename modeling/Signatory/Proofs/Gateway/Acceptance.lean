import Signatory.Proofs.Gateway.Run
import Signatory.Proofs.Ledger.Policy

/-! Acceptance of transactions: what meets the policy of the ledger runs, and all else is refused without a trace. -/

namespace Signatory
set_option autoImplicit false

namespace Engine

variable {μ : Type} {E : Engine μ}

end Engine

namespace Embedded

theorem serviceEnvelope_ready (sequence : Int) : (serviceEnvelope Runtime.null sequence).Ready :=
  ⟨rfl, fun _ h => nomatch h⟩

end Embedded

end Signatory
