import Provisioning.Chart.Location
import Provisioning.Proofs.Schema.Plain
import Provisioning.Proofs.Schema.Within
import Provisioning.ProviderConfig

/-!
# Requests are kept

A request may be stored and read again. A provider config, a cluster and the location of a chart
hold nothing but names and texts, and come back whatever they say. An infrastructure also holds a
value that is not looked into. It has to have a text, so there must be no floating-point number in
it; a document has to have room for it; and what comes back of it is its tree, or nothing if it is
`null` (`Infrastructure.kept`). All of this but the first is true of every infrastructure that has
been read, so from then on its text does not change.
-/

set_option autoImplicit false

namespace Provisioning

open Json

/-! ## Plain requests -/

theorem ProviderConfig.plain : shape.Plain maxDepth := by
  simp [shape, NetworkLayout.shape, Vpc.shape, Cidr.shape, Shape.string, Shape.Plain, Fields.Plain,
    Fields.names, Shape.toJson, Leaf.text, NoFloat, maxDepth]

theorem Cluster.plain : shape.Plain maxDepth := by
  simp [shape, ClusterNetworks.shape, Cidr.shape, Shape.Plain, Fields.Plain, Fields.names,
    Shape.toJson, Leaf.text, NoFloat, maxDepth]

theorem Chart.Location.plain : shape.Plain maxDepth := by
  simp [shape, Shape.string, Shape.Plain, Fields.Plain, Fields.names, Leaf.text, NoFloat, maxDepth]

/-! ## Infrastructures -/

/-- What is kept of a value of unknown shape that may be absent. -/
def Json.kept : Json → Option Json
  | .null => none
  | value => some value.tree

theorem Json.kept_of_ne_null {value : Json} (h : value ≠ .null) : value.kept = some value.tree := by
  rw [kept]
  exact h

namespace Infrastructure

/-- The same infrastructure with another provider config. -/
def withConfig (infra : Infrastructure) (config : Option Json) : Infrastructure :=
  { infra with spec := { infra.spec with providerConfig := config } }

/-- The infrastructure with what is kept of its provider config. -/
def kept (infra : Infrastructure) : Infrastructure :=
  infra.withConfig (infra.spec.providerConfig.bind Json.kept)

/-- A secret as it is written. -/
def writtenSecret (secret : SecretReference) : Json :=
  .object [("namespace", .string secret.namespaceName), ("name", .string secret.name)]

/-- An infrastructure as it is written: what is absent is left out, and only that. -/
theorem toJson_eq (infra : Infrastructure) :
    shape.toJson infra = .object [
      ("namespace", .string infra.namespaceName),
      ("name", .string infra.name),
      ("spec", .object (("region", .string infra.spec.region) ::
        (infra.spec.secretRef.toList.map fun secret => ("secretRef", writtenSecret secret)) ++
        infra.spec.providerConfig.toList.map fun tree => ("providerConfig", tree)))] := by
  obtain ⟨namespaceName, name, region, secretRef, providerConfig⟩ := infra
  cases secretRef <;> cases providerConfig <;> rfl

theorem ofJson_toJson (infra : Infrastructure) :
    shape.ofJson (shape.toJson infra) = .ok infra.kept := by
  obtain ⟨namespaceName, name, region, secretRef, providerConfig⟩ := infra
  cases secretRef <;> cases providerConfig with
  | none => rfl
  | some tree =>
    -- Whether a tree is `null` shows in its first constructors.
    cases tree with
    | scalar value => cases value <;> rfl
    | array items => rfl
    | object members => rfl

/-- The provider config, if there is one, has no floating-point number. -/
def Exact (infra : Infrastructure) : Prop :=
  ∀ tree, infra.spec.providerConfig = some tree → tree.Exact

theorem exact_toJson {infra : Infrastructure} (h : infra.Exact) : (shape.toJson infra).Exact := by
  obtain ⟨namespaceName, name, region, secretRef, providerConfig⟩ := infra
  cases secretRef <;> cases providerConfig with
  | none => simp [toJson_eq, Json.Exact, NoFloat, writtenSecret]
  | some tree =>
    have htree : tree.Everywhere NoFloat := h tree rfl
    simp [toJson_eq, Json.Exact, NoFloat, writtenSecret, htree]

/-- An infrastructure is written two containers deeper than its provider config. -/
theorem depth_toJson_le {infra : Infrastructure} {n : Nat} (hn : 0 < n)
    (h : ∀ tree, infra.spec.providerConfig = some tree → tree.depth ≤ n) :
    (shape.toJson infra).depth ≤ n + 2 := by
  obtain ⟨n, rfl⟩ := Nat.exists_eq_add_one.mpr hn
  obtain ⟨namespaceName, name, region, secretRef, providerConfig⟩ := infra
  cases secretRef <;> cases providerConfig with
  | none => simp [toJson_eq, writtenSecret]
  | some tree =>
    have htree : tree.depth ≤ n + 1 := h tree rfl
    simp [toJson_eq, writtenSecret, htree]

/-- What comes back from the text of an infrastructure is what is kept of it. -/
theorem decode_written {infra : Infrastructure} (hexact : infra.Exact)
    (hdepth : (shape.toJson infra).depth ≤ maxDepth) :
    shape.decode (Utf8.encode (shape.write infra)) = .ok infra.kept :=
  (shape.decode_eq_ok_iff (lists_text (exact_toJson hexact) hdepth)).mpr (ofJson_toJson infra)

/-- Of a provider config that is not `null` the tree is kept. -/
theorem kept_of_ne_null {infra : Infrastructure} (h : infra.spec.providerConfig ≠ some .null) :
    infra.kept = infra.withConfig (infra.spec.providerConfig.map Json.tree) := by
  rw [kept]
  cases hconfig : infra.spec.providerConfig with
  | none => rfl
  | some tree =>
    have hnull : tree ≠ .null := fun hnull => h (hconfig.trans (congrArg some hnull))
    rw [Option.bind_some, Json.kept_of_ne_null hnull, Option.map_some]

/-- A provider config that is a tree is its own tree. -/
theorem withConfig_map_tree {infra : Infrastructure}
    (h : ∀ tree, infra.spec.providerConfig = some tree → tree.tree = tree) :
    infra.withConfig (infra.spec.providerConfig.map Json.tree) = infra := by
  cases hconfig : infra.spec.providerConfig with
  | none => rw [Option.map_none, ← hconfig]; rfl
  | some tree => rw [Option.map_some, h tree hconfig, ← hconfig]; rfl

/-- A provider config that has been read is a tree and not `null`, and there is room for it in a
document. -/
theorem providerConfig_of_decode {document : Bytes} {infra : Infrastructure}
    (h : shape.decode document = .ok infra) {tree : Json}
    (htree : infra.spec.providerConfig = some tree) :
    tree ≠ .null ∧ tree.tree = tree ∧ tree.depth ≤ 125 := by
  obtain ⟨depth, hdepth, -, -, hspec, -⟩ := Shape.taken_of_read (Shape.gave_of_decode h)
  obtain hspec | hspec := hspec
  · cases hspec
  obtain ⟨depth', hdepth', -, -, hconfig, -⟩ := Shape.taken_of_read hspec
  have hconfig' : Shape.tree.optional.Gave depth' (some tree) := by
    rw [← htree]
    refine hconfig.resolve_left ?_
    intro habsent
    have hnone : none = infra.spec.providerConfig := Option.some.inj habsent
    rw [htree] at hnone
    cases hnone
  obtain ⟨hle, hkept⟩ := Shape.tree_of_read (Shape.of_read_optional hconfig')
  refine ⟨Shape.ne_null_of_read_optional_tree hconfig', hkept, ?_⟩
  rw [maxDepth] at hdepth
  omega

/-- Once an infrastructure has been read, all of it is kept. -/
theorem decode_written_of_decode {document : Bytes} {infra : Infrastructure}
    (h : shape.decode document = .ok infra) (hexact : infra.Exact) :
    shape.decode (Utf8.encode (shape.write infra)) = .ok infra := by
  have hdepth : (shape.toJson infra).depth ≤ maxDepth :=
    depth_toJson_le (by decide) fun tree htree => (providerConfig_of_decode h htree).2.2
  have hkept : infra.kept = infra := by
    rw [kept_of_ne_null fun hnull => (providerConfig_of_decode h hnull).1 rfl]
    exact withConfig_map_tree fun tree htree => (providerConfig_of_decode h htree).2.1
  rw [decode_written hexact hdepth, hkept]

/-- An infrastructure with `null` as its provider config comes back without one. -/
theorem decode_written_null {infra : Infrastructure}
    (h : infra.spec.providerConfig = some .null) :
    shape.decode (Utf8.encode (shape.write infra)) = .ok (infra.withConfig none) := by
  have hexact : infra.Exact := by
    intro tree htree
    rw [h] at htree
    cases htree
    exact everywhere_scalar.mpr trivial
  have hdepth : (shape.toJson infra).depth ≤ maxDepth := by
    refine depth_toJson_le (by decide) ?_
    intro tree htree
    rw [h] at htree
    cases htree
    exact Nat.zero_le 125
  rw [decode_written hexact hdepth, kept, h]
  rfl

end Infrastructure

/-- **Requests come back.** Every provider config, cluster and chart location comes back from its
text. So does an infrastructure without floating-point numbers whose document has no more than 127
containers open, with the tree of its provider config, which is the provider config itself if that
is a tree. The one exception is `null`, which comes back as no provider config. Nothing that has
been read has it, so whatever has been read comes back the same and is written the same again. -/
theorem requests_come_back :
    (∀ config, ProviderConfig.shape.decode (Utf8.encode (ProviderConfig.shape.write config)) =
      .ok config) ∧
    (∀ cluster, Cluster.shape.decode (Utf8.encode (Cluster.shape.write cluster)) = .ok cluster) ∧
    (∀ location, Chart.Location.shape.decode
      (Utf8.encode (Chart.Location.shape.write location)) = .ok location) ∧
    (∀ infra : Infrastructure, infra.spec.providerConfig ≠ some .null → infra.Exact →
      (Infrastructure.shape.toJson infra).depth ≤ 127 →
        Infrastructure.shape.decode (Utf8.encode (Infrastructure.shape.write infra)) =
          .ok (infra.withConfig (infra.spec.providerConfig.map Json.tree)) ∧
        ((∀ tree, infra.spec.providerConfig = some tree → tree.tree = tree) →
          Infrastructure.shape.decode (Utf8.encode (Infrastructure.shape.write infra)) =
            .ok infra)) ∧
    (∀ infra : Infrastructure, infra.spec.providerConfig = some .null →
      Infrastructure.shape.decode (Utf8.encode (Infrastructure.shape.write infra)) =
        .ok (infra.withConfig none)) ∧
    (∀ document infra, Infrastructure.shape.decode document = .ok infra →
      infra.spec.providerConfig ≠ some .null) ∧
    ∀ document infra, Infrastructure.shape.decode document = .ok infra → infra.Exact →
      Infrastructure.shape.decode (Utf8.encode (Infrastructure.shape.write infra)) = .ok infra ∧
      ∀ infra', Infrastructure.shape.decode
          (Utf8.encode (Infrastructure.shape.write infra)) = .ok infra' →
        Infrastructure.shape.write infra' = Infrastructure.shape.write infra := by
  refine ⟨ProviderConfig.plain.decode_write, Cluster.plain.decode_write,
    Chart.Location.plain.decode_write, ?_, fun infra => Infrastructure.decode_written_null, ?_, ?_⟩
  · intro infra hnull hexact hdepth
    have hwritten := Infrastructure.decode_written hexact hdepth
    rw [Infrastructure.kept_of_ne_null hnull] at hwritten
    refine ⟨hwritten, ?_⟩
    intro htree
    rw [hwritten, Infrastructure.withConfig_map_tree htree]
  · intro document infra h hnull
    exact (Infrastructure.providerConfig_of_decode h hnull).1 rfl
  · intro document infra h hexact
    have hagain := Infrastructure.decode_written_of_decode h hexact
    refine ⟨hagain, ?_⟩
    intro infra' h'
    rw [hagain] at h'
    cases h'
    rfl

/-- An infrastructure whose provider config lists its members in no order. -/
def unordered : Infrastructure :=
  ⟨"ns", "infra", "region", none, some (.object [("z", .array [.null]), ("a", .string "")])⟩

/-- The same one with the members in order. -/
def ordered : Infrastructure :=
  unordered.withConfig (some (.object [("a", .string ""), ("z", .array [.null])]))

theorem requests_come_back_unordered :
    Infrastructure.shape.decode (Utf8.encode (Infrastructure.shape.write unordered)) =
        .ok ordered ∧
      Infrastructure.shape.decode (Utf8.encode (Infrastructure.shape.write ordered)) =
        .ok ordered := by
  obtain ⟨-, -, -, hwritten, -, -, hagain⟩ := requests_come_back
  have hexact : unordered.Exact := by
    intro tree htree
    cases htree
    simp [Json.Exact, NoFloat]
  have hordered : ordered.Exact := by
    intro tree htree
    cases htree
    simp [Json.Exact, NoFloat]
  have hread : Infrastructure.shape.decode (Utf8.encode (Infrastructure.shape.write unordered)) =
      .ok ordered := (hwritten unordered nofun hexact (by decide)).1
  exact ⟨hread, (hagain _ ordered hread hordered).1⟩

end Provisioning
