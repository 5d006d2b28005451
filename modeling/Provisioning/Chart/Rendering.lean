import Provisioning.Chart.Location
import Provisioning.Chart.Rendered
import Provisioning.Chart.Values
import Provisioning.Event

/-!
# Rendering the infrastructure chart

The renderer is someone else's: a function in a monad of its own, with errors of its own. It is
called once, with the values of the request as a tree, and its error is handed on unchanged. Among
its errors there is one for values without a tree, in which case it is not called.
-/

set_option autoImplicit false

namespace Provisioning.Chart

variable {m : Type → Type} {ε : Type}

/-- Whoever can render a chart: given its directory and name, a namespace and the values. -/
abbrev Renderer (m : Type → Type) (ε : Type) :=
  (path name namespaceName : String) → (values : Json) → m (Except ε Rendered)

/-- The files for a request, rendered from the chart at a location with values that are a tree. -/
def renderTree [Monad m] [MonadLog m] [ToString ε] (renderer : Renderer m ε) (location : Location)
    (infra : Infrastructure) (values : Json) : m (Except ε Files) := do
  log (.rendering location.name location.path infra.namespaceName)
  match ← renderer location.path location.name infra.namespaceName values with
  | .error e =>
    log (.renderFailed location.name (toString e))
    return .error e
  | .ok rendered =>
    log (.rendered location.name infra.namespaceName)
    return .ok (.ofRendered rendered)

/-- The files for a request, rendered from the chart at a location. -/
def render [Monad m] [MonadLog m] [ToString ε] [OfUnwritable ε] (renderer : Renderer m ε)
    (location : Location) (infra : Infrastructure) (account : ServiceAccount)
    (config : ProviderConfig) (cluster : Cluster) : m (Except ε Files) :=
  match (Values.ofRequest infra account config cluster).toTree with
  | .error why => return .error (OfUnwritable.ofUnwritable why)
  | .ok values => renderTree renderer location infra values

/-- The files for a request, rendered from the provider's own infrastructure chart. -/
def renderInfrastructure [Monad m] [MonadLog m] [ToString ε] [OfUnwritable ε]
    (renderer : Renderer m ε) (infra : Infrastructure) (account : ServiceAccount)
    (config : ProviderConfig) (cluster : Cluster) : m (Except ε Files) :=
  render renderer default infra account config cluster

end Provisioning.Chart
