import Provisioning.OutputKey
import Provisioning.ServiceAccount

/-!
# The values of the infrastructure chart

What the chart needs to know of a request. The ranges of pods and services are those of the
cluster, the other ranges those of the config, and a range that is not given is `null` in the
values and not left out, so that a template can test it.
-/

set_option autoImplicit false

namespace Provisioning.Chart

/-- The name of a network that is yet to be created, in the words of the provisioning tool. -/
def createdVpcName : String := "$\x7bgoogle_compute_network.network.name\x7d"

/-! ## The names of the outputs -/

/-- Under which names the chart is to leave its results. -/
structure OutputNames where
  vpcName : String
  serviceAccountEmail : String
  subnetNodes : String
  subnetInternal : String
  deriving DecidableEq

namespace OutputNames

/-- The names under which the results are looked for. -/
instance : Inhabited OutputNames where
  default := {
    vpcName := OutputKey.vpcName.name
    serviceAccountEmail := OutputKey.serviceAccountEmail.name
    subnetNodes := OutputKey.subnetNodes.name
    subnetInternal := OutputKey.subnetInternal.name }

def shape : Shape OutputNames :=
  .record "OutputNames"
    (.required "vpcName" .string <|
     .required "serviceAccountEmail" .string <|
     .required "subnetNodes" .string <|
     .required "subnetInternal" .string <|
     .nil)
    ⟨fun (vpcName, serviceAccountEmail, subnetNodes, subnetInternal, ()) =>
        ⟨vpcName, serviceAccountEmail, subnetNodes, subnetInternal⟩,
      fun n => (n.vpcName, n.serviceAccountEmail, n.subnetNodes, n.subnetInternal, ()),
      fun _ => rfl, fun _ => rfl⟩

end OutputNames

/-! ## The values -/

structure Ranges where
  pods : Option Cidr
  services : Option Cidr
  worker : Cidr
  internal : Option Cidr
  deriving DecidableEq

def Ranges.shape : Shape Ranges :=
  .record "Ranges"
    (.required "pods" (.optional Cidr.shape) <|
     .required "services" (.optional Cidr.shape) <|
     .required "worker" Cidr.shape <|
     .required "internal" (.optional Cidr.shape) <|
     .nil)
    ⟨fun (pods, services, worker, internal, ()) => ⟨pods, services, worker, internal⟩,
      fun r => (r.pods, r.services, r.worker, r.internal, ()), fun _ => rfl, fun _ => rfl⟩

structure Values where
  region : String
  project : String
  createVpc : Bool
  vpcName : String
  clusterName : String
  networks : Ranges
  outputNames : OutputNames
  deriving DecidableEq

namespace Values

/-- The values of a request. Without a network to reuse, one is created. -/
def ofRequest (infra : Infrastructure) (account : ServiceAccount) (config : ProviderConfig)
    (cluster : Cluster) : Values where
  region := infra.spec.region
  project := account.projectId
  createVpc := config.networks.vpc.isNone
  vpcName := (config.networks.vpc.map Vpc.name).getD createdVpcName
  clusterName := infra.namespaceName
  networks := {
    pods := cluster.networks.pods
    services := cluster.networks.services
    worker := config.networks.worker
    internal := config.networks.internal }
  outputNames := default

def shape : Shape Values :=
  .record "Values"
    (.required "google"
      (.record "Google"
        (.required "region" .string <|
         .required "project" .string <|
         .nil)
        (.refl _)) <|
     .required "create"
      (.record "Create"
        (.required "vpc" (.leaf .flag) <|
         .nil)
        (.refl _)) <|
     .required "vpc" Vpc.shape <|
     .required "clusterName" .string <|
     .required "networks" Ranges.shape <|
     .required "outputKeys" OutputNames.shape <|
     .nil)
    ⟨fun ((region, project, ()), (createVpc, ()), vpc, clusterName, networks, outputNames, ()) =>
        ⟨region, project, createVpc, vpc.name, clusterName, networks, outputNames⟩,
      fun v => ((v.region, v.project, ()), (v.createVpc, ()), ⟨v.vpcName⟩, v.clusterName,
        v.networks, v.outputNames, ()),
      fun _ => rfl, fun _ => rfl⟩

/-- The values as a tree. -/
def tree (values : Values) : Json := (shape.toJson values).tree

/-- The tree as it is made for a renderer. -/
def toTree (values : Values) : Except Unwritable Json := shape.toTree values

end Values

end Provisioning.Chart
