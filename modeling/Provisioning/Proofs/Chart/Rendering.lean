import Provisioning.Proofs.Chart.Files
import Provisioning.Proofs.Chart.Values

/-!
# One call, and what comes of it

A renderer may be any function that answers a call with an error or with a chart. Whatever it is, it
is called once for a request, with the location of the chart, the namespace of the request and its
values. The values always have a tree, so nothing can fail before the call; and what happens after
it is decided by the answer alone: an error is handed on, and of a chart the files are taken that it
has under its own name.
-/

set_option autoImplicit false

namespace Provisioning.Chart

variable {ε : Type}

/-- A renderer that answers by a function and does nothing else. -/
def Renderer.answering (answer : Call → Except ε Rendered) : Renderer Logged ε :=
  fun path name namespaceName values => return answer ⟨path, name, namespaceName, values⟩

/-- What the rendering of a request answers, and the calls it makes, where calls are answered by a
function. -/
def rendering [ToString ε] [OfUnwritable ε] (answer : Call → Except ε Rendered)
    (location : Location) (infra : Infrastructure) (account : ServiceAccount)
    (config : ProviderConfig) (cluster : Cluster) : Except ε Files × List Call :=
  called (render (Renderer.answering answer).recorded location infra account config cluster)

variable [ToString ε] [OfUnwritable ε] (answer : Call → Except ε Rendered) (location : Location)
  (infra : Infrastructure) (account : ServiceAccount) (config : ProviderConfig) (cluster : Cluster)

theorem rendering_eq :
    rendering answer location infra account config cluster =
      ((answer (.ofRequest location infra account config cluster)).map Files.ofRendered,
        [.ofRequest location infra account config cluster]) := by
  rw [rendering, called, run_render_recorded, Logged.outcome_map, Call.ofRequest, render_eq,
    renderTree, Renderer.answering]
  cases answer ⟨location.path, location.name, infra.namespaceName,
    (Values.ofRequest infra account config cluster).tree⟩ <;> rfl

/-- **The renderer is called once and its answer decides.** For every request the values have a
tree, from which they come back, so the renderer is called, with the location, the namespace and the
tree. Its error is the result, and there is no other error. Its chart gives the files, each under
its bare name or as a template of that chart. Where no location is named, it is that of the
provider's own chart. -/
theorem render_calls_once :
    (rendering answer location infra account config cluster).2 =
      [⟨location.path, location.name, infra.namespaceName,
        (Values.ofRequest infra account config cluster).tree⟩] ∧
    (Values.ofRequest infra account config cluster).toTree =
      .ok (Values.ofRequest infra account config cluster).tree ∧
    Values.shape.decodeTree (Values.ofRequest infra account config cluster).tree =
      .ok (Values.ofRequest infra account config cluster) ∧
    (∀ error, (rendering answer location infra account config cluster).1 = .error error ↔
      answer (.ofRequest location infra account config cluster) = .error error) ∧
    (∀ files, (rendering answer location infra account config cluster).1 = .ok files ↔
      ∃ chart, answer (.ofRequest location infra account config cluster) = .ok chart ∧
        files.TakenFrom chart) ∧
    ∀ {m : Type → Type} [Monad m] [MonadLog m] (renderer : Renderer m ε),
      renderInfrastructure renderer infra account config cluster =
        render renderer ⟨"controllers/provider-gcp/charts/internal/gcp-infra", "gcp-infra"⟩ infra
          account config cluster := by
  rw [rendering_eq]
  refine ⟨rfl, Values.toTree_eq _, Values.decodeTree_tree _, ?_, ?_, fun _ => rfl⟩
  · intro error
    cases answer (.ofRequest location infra account config cluster) <;> simp [Except.map]
  · intro files
    refine Except.map_eq_ok.trans (exists_congr fun chart => and_congr_right fun _ => ?_)
    rw [Files.takenFrom_iff, eq_comm]

end Provisioning.Chart
