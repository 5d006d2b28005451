import Provisioning.Proofs.Status

/-!
# A state is recovered from its status

The status is all that is kept of a state, and nothing of the state is lost in it: each part stands
where a reader of the status looks for it (`Status.Tells`), the subnets under their purposes. A
status tells one state only (`Status.Tells.unique`), and a status that has been written and read
again is the same status. So states that differ, if only in that one has no internal subnet and the
other one without a name, are kept as different texts.
-/

set_option autoImplicit false

namespace Provisioning.Status

/-- Each part of the state is found in the status. -/
structure Tells (state : State) (status : Status) : Prop where
  vpcName : status.networks.vpc.name = state.vpcName
  serviceAccountEmail : status.serviceAccountEmail = state.serviceAccountEmail
  subnetNodes : status.subnet? .nodes = some ⟨.nodes, state.subnetNodes⟩
  subnetInternal : status.subnet? .internal = state.subnetInternal.map (⟨.internal, ·⟩)

theorem Tells.unique {state state' : State} {status : Status} (h : status.Tells state)
    (h' : status.Tells state') : state = state' := by
  obtain ⟨vpcName, email, nodes, internal⟩ := state
  obtain ⟨vpcName', email', nodes', internal'⟩ := state'
  have hvpc : vpcName = vpcName' := h.vpcName.symm.trans h'.vpcName
  have hemail : email = email' := h.serviceAccountEmail.symm.trans h'.serviceAccountEmail
  have hnodes : nodes = nodes' := by
    have hsubnet := h.subnetNodes.symm.trans h'.subnetNodes
    simpa using hsubnet
  have hinternal : internal = internal' := by
    have hsubnet := h.subnetInternal.symm.trans h'.subnetInternal
    exact Option.map_injective (fun _ _ h => congrArg Subnet.name h) hsubnet
  rw [hvpc, hemail, hnodes, hinternal]

/-- The subnet of the nodes is listed before the internal one, and the look-up passes over it. -/
theorem tells_ofState (state : State) : (ofState state).Tells state where
  vpcName := rfl
  serviceAccountEmail := rfl
  subnetNodes := rfl
  subnetInternal := by
    obtain ⟨vpcName, email, nodes, internal⟩ := state
    cases internal <;> rfl

/-- A status that has been written and read again. -/
theorem decode_write_ofState (state : State) :
    shape.decode (Utf8.encode (shape.write (ofState state))) = .ok (ofState state) :=
  shape.decode_write (recovers _) (exact_toJson _) (depth_toJson _)

theorem ofState_inj {state state' : State} : ofState state = ofState state' ↔ state = state' := by
  constructor
  · intro h
    have htells := tells_ofState state
    rw [h] at htells
    exact htells.unique (tells_ofState state')
  · rintro rfl
    rfl

/-- **Nothing of a state is lost in its status.** Each part of the state is found in its status, and
in what is read of the text that is kept of it, which has the tag of a status too. Two states have
one text only if they are the same state. -/
theorem state_kept_in_status (state : State) :
    (ofState state).Tells state ∧
    (∃ kept, shape.decode (Utf8.encode (shape.write (ofState state))) = .ok kept ∧
      kept.Tells state ∧
      kept.tag = ⟨"gcp.provider.extensions.gardener.cloud/v1alpha1", "InfrastructureStatus"⟩) ∧
    ∀ state', shape.write (ofState state) = shape.write (ofState state') ↔ state = state' := by
  refine ⟨tells_ofState state, ⟨_, decode_write_ofState state, tells_ofState state, rfl⟩, ?_⟩
  intro state'
  constructor
  · intro htext
    have hread := decode_write_ofState state
    rw [htext, decode_write_ofState state'] at hread
    exact (ofState_inj.mp (Except.ok.inj hread)).symm
  · rintro rfl
    rfl

end Provisioning.Status
