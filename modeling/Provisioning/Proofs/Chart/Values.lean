import Provisioning.Proofs.Chart.Handing

/-!
# What the values say of a request

A template sees nothing of a request but its values, as a tree. The values come back from the tree,
so equal trees are trees of equal values (`Values.tree_inj`). And the values are equal only for
requests that agree on all that the chart is about (`Values.ofRequest_eq_iff`): a network to reuse
is told from one to create by a flag and not by its name, and a range that is absent is `null`,
which is not the empty range.

The values can be written as a text as well, in declared order. Read as a value of unknown shape,
the text is the same tree.
-/

set_option autoImplicit false

namespace Provisioning.Chart

open Json

namespace Values

/-! ## The tree and the text -/

theorem decodeTree_tree (values : Values) : shape.decodeTree values.tree = .ok values :=
  shape.decodeTree_tree (plain.recovers values)

theorem tree_inj {values values' : Values} : values.tree = values'.tree ↔ values = values' := by
  constructor
  · intro h
    have hread := decodeTree_tree values
    rw [h, decodeTree_tree values'] at hread
    cases hread
    rfl
  · rintro rfl
    rfl

theorem tree_decode_write (values : Values) :
    Shape.tree.decode (Utf8.encode (shape.write values)) = .ok values.tree :=
  tree_decode_eq_ok_iff.mpr ⟨_, plain.lists_write values, rfl⟩

end Values

/-! ## What is told -/

/-- What the chart is about stands in the tree, each part at its own place. -/
structure Tells (infra : Infrastructure) (account : ServiceAccount) (config : ProviderConfig)
    (cluster : Cluster) (tree : Json) : Prop where
  region : tree.at? ["google", "region"] = some (.string infra.spec.region)
  project : tree.at? ["google", "project"] = some (.string account.projectId)
  clusterName : tree.at? ["clusterName"] = some (.string infra.namespaceName)
  /-- Without a network to reuse one is created, and the provisioning tool names it. -/
  created : config.networks.vpc = none →
    tree.at? ["create", "vpc"] = some (.bool true) ∧
      tree.at? ["vpc", "name"] = some (.string "$\x7bgoogle_compute_network.network.name\x7d")
  reused : ∀ vpc, config.networks.vpc = some vpc →
    tree.at? ["create", "vpc"] = some (.bool false) ∧
      tree.at? ["vpc", "name"] = some (.string vpc.name)
  pods : tree.at? ["networks", "pods"] = some (Values.rangeTree cluster.networks.pods)
  services : tree.at? ["networks", "services"] = some (Values.rangeTree cluster.networks.services)
  worker : tree.at? ["networks", "worker"] = some (.string config.networks.worker.text)
  internal : tree.at? ["networks", "internal"] = some (Values.rangeTree config.networks.internal)

theorem tells_tree (infra : Infrastructure) (account : ServiceAccount) (config : ProviderConfig)
    (cluster : Cluster) :
    Tells infra account config cluster (Values.ofRequest infra account config cluster).tree := by
  rw [Values.tree_eq]
  constructor
  case created =>
    intro hvpc
    rw [Values.ofRequest, hvpc]
    exact ⟨rfl, rfl⟩
  case reused =>
    intro vpc hvpc
    rw [Values.ofRequest, hvpc]
    exact ⟨rfl, rfl⟩
  all_goals rfl

/-! ## What makes a difference -/

/-- The flag tells a network to reuse from one to create, even if it has the name of that one. -/
theorem vpc_eq_of_values {vpc vpc' : Option Vpc} {created : String}
    (hflag : vpc.isNone = vpc'.isNone)
    (hname : (vpc.map Vpc.name).getD created = (vpc'.map Vpc.name).getD created) : vpc = vpc' := by
  cases vpc with
  | none =>
    cases vpc' with
    | none => rfl
    | some vpc' => cases hflag
  | some vpc =>
    cases vpc' with
    | none => cases hflag
    | some vpc' =>
      obtain ⟨name⟩ := vpc
      obtain ⟨name'⟩ := vpc'
      exact congrArg (fun name => some (Vpc.mk name)) hname

variable {infra infra' : Infrastructure} {account account' : ServiceAccount}
  {config config' : ProviderConfig} {cluster cluster' : Cluster}

theorem Values.ofRequest_eq_iff :
    ofRequest infra account config cluster = ofRequest infra' account' config' cluster' ↔
      infra.spec.region = infra'.spec.region ∧ infra.namespaceName = infra'.namespaceName ∧
      account.projectId = account'.projectId ∧ config = config' ∧
      cluster.networks.pods = cluster'.networks.pods ∧
      cluster.networks.services = cluster'.networks.services := by
  constructor
  · intro h
    simp only [ofRequest, Values.mk.injEq, Ranges.mk.injEq, and_true] at h
    obtain ⟨hregion, hproject, hflag, hname, hcluster, hpods, hservices, hworker, hinternal⟩ := h
    have hvpc := vpc_eq_of_values hflag hname
    obtain ⟨⟨vpc, internal, worker⟩⟩ := config
    obtain ⟨⟨vpc', internal', worker'⟩⟩ := config'
    dsimp only at hvpc hworker hinternal
    rw [hvpc, hworker, hinternal]
    exact ⟨hregion, hcluster, hproject, rfl, hpods, hservices⟩
  · rintro ⟨hregion, hcluster, hproject, rfl, hpods, hservices⟩
    rw [ofRequest, ofRequest, hregion, hcluster, hproject, hpods, hservices]

/-- **The values tell all that the chart is about, and nothing else.** The values of a request have
a tree, for nothing that is told of them is refused, and they come back from it; and the text that
is written of them reads as the same tree. Whether a network is created or reused, and all ranges,
stand in it. The trees of two requests are equal exactly if the requests agree on region, namespace,
project, the whole config and the ranges of the cluster. -/
theorem values_tell_request (infra : Infrastructure) (account : ServiceAccount)
    (config : ProviderConfig) (cluster : Cluster) :
    (Values.ofRequest infra account config cluster).toTree =
      .ok (Values.ofRequest infra account config cluster).tree ∧
    Values.shape.decodeTree (Values.ofRequest infra account config cluster).tree =
      .ok (Values.ofRequest infra account config cluster) ∧
    Shape.tree.decode
        (Utf8.encode (Values.shape.write (Values.ofRequest infra account config cluster))) =
      .ok (Values.ofRequest infra account config cluster).tree ∧
    Tells infra account config cluster (Values.ofRequest infra account config cluster).tree ∧
    ∀ infra' account' config' cluster',
      (Values.ofRequest infra account config cluster).tree =
          (Values.ofRequest infra' account' config' cluster').tree ↔
        infra.spec.region = infra'.spec.region ∧ infra.namespaceName = infra'.namespaceName ∧
        account.projectId = account'.projectId ∧ config = config' ∧
        cluster.networks.pods = cluster'.networks.pods ∧
        cluster.networks.services = cluster'.networks.services := by
  refine ⟨Values.toTree_eq _, Values.decodeTree_tree _, Values.tree_decode_write _,
    tells_tree _ _ _ _, ?_⟩
  intro infra' account' config' cluster'
  rw [Values.tree_inj, Values.ofRequest_eq_iff]

end Provisioning.Chart
