import Mathlib.Tactic

/-!
# Device meshes

`allocate_meshes` cuts the devices into a prefix for the target and a suffix for the draft, and
makes a mesh of each that has devices.

1. `draftCount` is what `_split_counts` means: one device in eight, and at least one as soon as
   there are two (`splitCounts_eq`).
2. The slices at these counts cover the devices (`splitDevices_append`).
3. `_make_mesh` never reshapes to a wrong size and never names a wrong number of axes
   (`makeMesh_ok`), since `NdArray` and `Mesh` carry both as fields.
-/

namespace SsdTpu

inductive MeshPolicy
  | auto
  | allTarget
  | allDraft
  deriving DecidableEq, Repr

/-- `mesh_policy_from_env`, of `SSD_TPU_ROLE` and `TPU_TOPOLOGY`. -/
def meshPolicyFromEnv (ssdTpuRole tpuTopology : Option String) : MeshPolicy :=
  let role := (ssdTpuRole.getD "both").toLower
  let topo := (tpuTopology.getD "single").toLower
  if role = "target" ∨ topo = "dual8-target" then .allTarget
  else if role = "draft" ∨ topo = "dual8-draft" then .allDraft
  else .auto

/-- `_split_counts`: the numbers of target and draft devices. -/
def splitCounts (n : ℕ) : ℤ × ℤ :=
  if 8 ≤ n then
    let draft : ℤ := max 1 ((n : ℤ) / 8)
    (n - draft, draft)
  else if n = 4 then (3, 1)
  else if n = 2 then (1, 1)
  else if n = 1 then (1, 0)
  else
    let draft : ℤ := max 1 ((n : ℤ) / 4)
    (n - draft, draft)

section Slice

variable {α : Type*}

/-- A bound of a slice. A negative one counts from the end. -/
def sliceBound (n : ℕ) (i : ℤ) : ℕ :=
  if i < 0 then (n + i).toNat else i.toNat

/-- `l[lo:hi]`. -/
def pySlice (l : List α) (lo hi : ℤ) : List α :=
  (l.take (sliceBound l.length hi)).drop (sliceBound l.length lo)

end Slice

variable {D : Type*}

inductive MeshError
  | valueError (text : String)
  | reshape (shape : List ℕ)
  | axisNames (names : List String)
  deriving DecidableEq, Repr

/-- An array of numpy: the data in row-major order. -/
structure NdArray (D : Type*) where
  shape : List ℕ
  data : List D
  length_eq : data.length = shape.prod

/-- `np.array` of a tuple. -/
def NdArray.ofTuple (devices : List D) : NdArray D :=
  ⟨[devices.length], devices, List.prod_singleton.symm⟩

/-- `a.reshape(shape)`, which fails unless the sizes agree. -/
def NdArray.reshape (a : NdArray D) (shape : List ℕ) : Except MeshError (NdArray D) :=
  if h : a.data.length = shape.prod then .ok ⟨shape, a.data, h⟩ else .error (.reshape shape)

/-- A mesh of jax: every axis of the devices has a name. -/
structure Mesh (D : Type*) where
  devices : NdArray D
  axisNames : List String
  ndim_eq : devices.shape.length = axisNames.length

/-- `Mesh(devices, axis_names)`, which fails unless there are as many names as axes. -/
def Mesh.ofDevices (devices : NdArray D) (axisNames : List String) : Except MeshError (Mesh D) :=
  if h : devices.shape.length = axisNames.length then .ok ⟨devices, axisNames, h⟩
  else .error (.axisNames axisNames)

/-- `_make_mesh`. -/
def makeMesh (devices : List D) (name : String) : Except MeshError (Mesh D) :=
  let n := devices.length
  if n = 0 then .error (.valueError ("cannot build " ++ name ++ " mesh with zero devices"))
  else if n = 1 then Mesh.ofDevices (NdArray.ofTuple devices) ["model"]
  else if n = 2 then do
    let devices ← (NdArray.ofTuple devices).reshape [1, 2]
    Mesh.ofDevices devices ["data", "model"]
  else if n = 4 then do
    let devices ← (NdArray.ofTuple devices).reshape [2, 2]
    Mesh.ofDevices devices ["data", "model"]
  else if n = 8 then do
    let devices ← (NdArray.ofTuple devices).reshape [2, 4]
    Mesh.ofDevices devices ["data", "model"]
  else Mesh.ofDevices (NdArray.ofTuple devices) ["devices"]

structure MeshAllocation (D : Type*) where
  targetDevices : List D
  draftDevices : List D
  targetMesh : Option (Mesh D)
  draftMesh : Option (Mesh D)
  policy : MeshPolicy
  warnings : List String

/-- The case split of `allocate_meshes`: the target devices, the draft devices and the warnings. -/
def splitDevices (policy : MeshPolicy) (devices : List D) : List D × List D × List String :=
  match policy with
  | .allTarget =>
    (devices, [], ["all_target: all chips for target model (dual8 target VM)."])
  | .allDraft =>
    ([], devices, ["all_draft: all chips for draft model (dual8 draft VM)."])
  | .auto =>
    let (tCount, dCount) := splitCounts devices.length
    (pySlice devices 0 tCount, pySlice devices tCount (tCount + dCount),
      if devices.length = 1 then ["Single device: only AR and sync SD; SSD runs sequentially."]
      else [])

/-- `_make_mesh(devs, name) if devs else None`. -/
def meshOf (devices : List D) (name : String) : Except MeshError (Option (Mesh D)) :=
  if devices.isEmpty then .ok none else some <$> makeMesh devices name

/-- `allocate_meshes`, where `devices` is `jax.devices()`. -/
def allocateMeshes (ssdTpuRole tpuTopology : Option String) (devices : List D)
    (policy : Option MeshPolicy) : Except MeshError (MeshAllocation D) := do
  let policy := policy.getD (meshPolicyFromEnv ssdTpuRole tpuTopology)
  let (targetDevs, draftDevs, warnings) := splitDevices policy devices
  let targetMesh ← meshOf targetDevs "target"
  let draftMesh ← meshOf draftDevs "draft"
  return ⟨targetDevs, draftDevs, targetMesh, draftMesh, policy, warnings⟩

/-! ## The counts -/

/-- One device in eight, and at least one as soon as there are two. -/
def draftCount (n : ℕ) : ℕ := if n ≤ 1 then 0 else max 1 (n / 8)

/-- The special cases of `_split_counts` are those of one formula. -/
theorem splitCounts_eq {n : ℕ} (hn : 0 < n) :
    splitCounts n = (((n - draftCount n : ℕ) : ℤ), (draftCount n : ℤ)) := by
  unfold splitCounts draftCount
  split_ifs with h8 h1 h4 h2 h1 h1
  all_goals simp only [Prod.mk.injEq]
  all_goals omega

theorem draftCount_mono {n n' : ℕ} (h : n ≤ n') : draftCount n ≤ draftCount n' := by
  unfold draftCount
  split_ifs <;> omega

theorem sub_draftCount_mono {n n' : ℕ} (h : n ≤ n') : n - draftCount n ≤ n' - draftCount n' := by
  unfold draftCount
  split_ifs <;> omega

theorem draftCount_pos {n : ℕ} : 0 < draftCount n ↔ 2 ≤ n := by
  unfold draftCount
  split_ifs <;> omega

theorem two_mul_draftCount_le (n : ℕ) : 2 * draftCount n ≤ n := by
  unfold draftCount
  split_ifs <;> omega

/-! ## The cut -/

theorem pySlice_natCast {α : Type*} (l : List α) (lo hi : ℕ) :
    pySlice l lo hi = (l.take hi).drop lo := by
  have hbound : ∀ i : ℕ, sliceBound l.length i = i := by
    intro i
    unfold sliceBound
    rw [if_neg (Int.natCast_nonneg i).not_gt, Int.toNat_natCast]
  unfold pySlice
  rw [hbound, hbound]

variable {devices : List D}

theorem splitDevices_auto (h : devices ≠ []) :
    (splitDevices .auto devices).1 =
        devices.take (devices.length - draftCount devices.length) ∧
      (splitDevices .auto devices).2.1 =
        devices.drop (devices.length - draftCount devices.length) := by
  have hle := two_mul_draftCount_le devices.length
  unfold splitDevices
  simp only [splitCounts_eq (List.length_pos_iff.mpr h)]
  constructor
  · exact pySlice_natCast devices 0 _
  · rw [← Nat.cast_add, pySlice_natCast, Nat.sub_add_cancel (by omega), List.take_length]

/-- **Nothing is lost and nothing is used twice.** -/
theorem splitDevices_append (policy : MeshPolicy) (h : devices ≠ []) :
    (splitDevices policy devices).1 ++ (splitDevices policy devices).2.1 = devices := by
  cases policy with
  | auto =>
    obtain ⟨htarget, hdraft⟩ := splitDevices_auto h
    rw [htarget, hdraft]
    exact List.take_append_drop _ _
  | allTarget => exact List.append_nil devices
  | allDraft => rfl

theorem length_splitDevices_auto (h : devices ≠ []) :
    (splitDevices .auto devices).1.length = devices.length - draftCount devices.length ∧
      (splitDevices .auto devices).2.1.length = draftCount devices.length := by
  obtain ⟨htarget, hdraft⟩ := splitDevices_auto h
  have hle := two_mul_draftCount_le devices.length
  rw [htarget, hdraft, List.length_take, List.length_drop]
  omega

/-! ## The meshes -/

theorem NdArray.reshape_ok (a : NdArray D) {shape : List ℕ} (h : a.data.length = shape.prod) :
    a.reshape shape = .ok ⟨shape, a.data, h⟩ :=
  dif_pos h

theorem Mesh.ofDevices_ok {a : NdArray D} {axisNames : List String}
    (h : a.shape.length = axisNames.length) :
    Mesh.ofDevices a axisNames = .ok ⟨a, axisNames, h⟩ :=
  dif_pos h

theorem reshape_ofDevices_ok {shape : List ℕ} {axisNames : List String}
    (hsize : devices.length = shape.prod) (hrank : shape.length = axisNames.length) :
    ∃ mesh, ((NdArray.ofTuple devices).reshape shape >>= (Mesh.ofDevices · axisNames)) = .ok mesh ∧
      mesh.devices.data = devices := by
  rw [NdArray.reshape_ok _ hsize]
  exact ⟨_, Mesh.ofDevices_ok hrank, rfl⟩

theorem makeMesh_ok (h : devices ≠ []) (name : String) :
    ∃ mesh, makeMesh devices name = .ok mesh ∧ mesh.devices.data = devices := by
  unfold makeMesh
  simp only
  rw [if_neg (mt List.eq_nil_of_length_eq_zero h)]
  split_ifs with h1 h2 h4 h8
  · exact ⟨_, Mesh.ofDevices_ok rfl, rfl⟩
  · exact reshape_ofDevices_ok h2 rfl
  · exact reshape_ofDevices_ok h4 rfl
  · exact reshape_ofDevices_ok h8 rfl
  · exact ⟨_, Mesh.ofDevices_ok rfl, rfl⟩

/-- The mesh of a part: there is one if the part has devices, and it has exactly these, with a
shape of that size and a name for every axis. -/
def MeshFits (mesh : Option (Mesh D)) (devices : List D) : Prop :=
  match mesh with
  | none => devices = []
  | some mesh => devices ≠ [] ∧ mesh.devices.data = devices ∧
      mesh.devices.shape.prod = devices.length ∧
      mesh.devices.shape.length = mesh.axisNames.length

theorem meshOf_ok (devices : List D) (name : String) :
    ∃ mesh, meshOf devices name = .ok mesh ∧ MeshFits mesh devices := by
  unfold meshOf
  split_ifs with hempty
  · exact ⟨none, rfl, List.isEmpty_iff.mp hempty⟩
  · have hne : devices ≠ [] := fun h => hempty (List.isEmpty_iff.mpr h)
    obtain ⟨mesh, hmesh, hdata⟩ := makeMesh_ok hne name
    refine ⟨some mesh, by rw [hmesh]; rfl, hne, hdata, ?_, mesh.ndim_eq⟩
    rw [← mesh.devices.length_eq, hdata]

/-! ## The allocation -/

/-- The parts of an allocation are those of `splitDevices`, each with its mesh. -/
structure MeshAllocation.Parts (alloc : MeshAllocation D) (devices : List D) : Prop where
  target : alloc.targetDevices = (splitDevices alloc.policy devices).1
  draft : alloc.draftDevices = (splitDevices alloc.policy devices).2.1
  targetMesh : MeshFits alloc.targetMesh alloc.targetDevices
  draftMesh : MeshFits alloc.draftMesh alloc.draftDevices

theorem allocateMeshes_ok (ssdTpuRole tpuTopology : Option String) (devices : List D)
    (policy : Option MeshPolicy) :
    ∃ alloc, allocateMeshes ssdTpuRole tpuTopology devices policy = .ok alloc ∧
      alloc.policy = policy.getD (meshPolicyFromEnv ssdTpuRole tpuTopology) ∧
      alloc.Parts devices := by
  obtain ⟨targetMesh, htarget, hfits⟩ :=
    meshOf_ok (splitDevices (policy.getD (meshPolicyFromEnv ssdTpuRole tpuTopology)) devices).1
      "target"
  obtain ⟨draftMesh, hdraft, hfits'⟩ :=
    meshOf_ok (splitDevices (policy.getD (meshPolicyFromEnv ssdTpuRole tpuTopology)) devices).2.1
      "draft"
  unfold allocateMeshes
  simp only [htarget, hdraft]
  exact ⟨_, rfl, rfl, rfl, rfl, hfits, hfits'⟩

theorem parts_of_allocateMeshes {ssdTpuRole tpuTopology : Option String}
    {policy : Option MeshPolicy} {alloc : MeshAllocation D}
    (h : allocateMeshes ssdTpuRole tpuTopology devices policy = .ok alloc) :
    alloc.Parts devices := by
  obtain ⟨alloc', hok, _, hparts⟩ := allocateMeshes_ok ssdTpuRole tpuTopology devices policy
  obtain rfl : alloc = alloc' := Except.ok.inj (h.symm.trans hok)
  exact hparts

namespace MeshAllocation

variable {alloc : MeshAllocation D}

theorem Parts.append_eq (hparts : alloc.Parts devices) (h : devices ≠ []) :
    alloc.targetDevices ++ alloc.draftDevices = devices := by
  rw [hparts.target, hparts.draft]
  exact splitDevices_append alloc.policy h

theorem Parts.length_of_auto (hparts : alloc.Parts devices) (hauto : alloc.policy = .auto)
    (h : devices ≠ []) :
    alloc.targetDevices.length = devices.length - draftCount devices.length ∧
      alloc.draftDevices.length = draftCount devices.length := by
  rw [hparts.target, hparts.draft, hauto]
  exact length_splitDevices_auto h

end MeshAllocation

/-- **The partition of the devices.** It covers them in order under every policy. Under `auto`
there is a target, there is a draft from two devices on and it is not larger than the target, and
more devices take none from either part. The meshes of the parts fit them. -/
theorem allocateMeshes_partition (ssdTpuRole tpuTopology : Option String)
    (policy : Option MeshPolicy) {devices : List D} (h : devices ≠ []) :
    ∃ alloc, allocateMeshes ssdTpuRole tpuTopology devices policy = .ok alloc ∧
      alloc.policy = policy.getD (meshPolicyFromEnv ssdTpuRole tpuTopology) ∧
      alloc.targetDevices ++ alloc.draftDevices = devices ∧
      (alloc.policy = .auto →
        alloc.targetDevices ≠ [] ∧ (alloc.draftDevices ≠ [] ↔ 2 ≤ devices.length) ∧
        alloc.draftDevices.length ≤ alloc.targetDevices.length ∧
        ∀ (ssdTpuRole' tpuTopology' : Option String) (policy' : Option MeshPolicy)
          (devices' : List D) (alloc' : MeshAllocation D),
          allocateMeshes ssdTpuRole' tpuTopology' devices' policy' = .ok alloc' →
          alloc'.policy = .auto → devices.length ≤ devices'.length →
          alloc.targetDevices.length ≤ alloc'.targetDevices.length ∧
          alloc.draftDevices.length ≤ alloc'.draftDevices.length) ∧
      MeshFits alloc.targetMesh alloc.targetDevices ∧
      MeshFits alloc.draftMesh alloc.draftDevices := by
  obtain ⟨alloc, hok, hpolicy, hparts⟩ := allocateMeshes_ok ssdTpuRole tpuTopology devices policy
  refine ⟨alloc, hok, hpolicy, hparts.append_eq h, fun hauto => ?_, hparts.targetMesh,
    hparts.draftMesh⟩
  obtain ⟨htarget, hdraft⟩ := hparts.length_of_auto hauto h
  have hpos := List.length_pos_iff.mpr h
  have hhalf := two_mul_draftCount_le devices.length
  refine ⟨List.ne_nil_of_length_pos (by omega), ?_, by omega, ?_⟩
  · rw [← List.length_pos_iff, hdraft, draftCount_pos]
  · intro _ _ _ devices' alloc' hok' hauto' hle
    have h' : devices' ≠ [] := List.ne_nil_of_length_pos (by omega)
    obtain ⟨htarget', hdraft'⟩ := (parts_of_allocateMeshes hok').length_of_auto hauto' h'
    rw [htarget, hdraft, htarget', hdraft']
    exact ⟨sub_draftCount_mono hle, draftCount_mono hle⟩

theorem allocateMeshes_partition_three :
    ∃ alloc : MeshAllocation ℕ, allocateMeshes none none [0, 1, 2] (some .auto) = .ok alloc ∧
      alloc.targetDevices ++ alloc.draftDevices = [0, 1, 2] ∧ alloc.draftDevices ≠ [] := by
  obtain ⟨alloc, hok, hpolicy, happend, hauto, _⟩ :=
    allocateMeshes_partition none none (some .auto) (List.cons_ne_nil 0 [1, 2])
  exact ⟨alloc, hok, happend, (hauto hpolicy).2.1.mpr (by decide)⟩

end SsdTpu
