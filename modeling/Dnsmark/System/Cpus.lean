import Dnsmark.Common.Representatives
import Dnsmark.Common.RoundRobin
import Dnsmark.Common.Text
import Dnsmark.Xdp.Startup
import Mathlib.Data.List.Sort
import Mathlib.Order.Bounds.Basic

/-!
# The cores and their workers

`physical_cores` of `src/autodetect.rs` reads the topology under `/sys/devices/system/cpu` and keeps one
CPU of each physical core; `physical_cores_numa_sorted` moves those of the NIC's node to the front.
`pin_to_cpu` of `src/transport/mod.rs` deals them out to the workers, round robin.

The workers of a single-NIC run start inside the affinity mask of `confine_to_nic_node`, all CPUs of the
NIC's node.  A worker that pins itself leaves that mask for its one core, and the cores it is dealt are
those of the whole host.  So it is the number of workers that decides whether they stay on the node
(`workers_pinned`).
-/

namespace Dnsmark.Cpus

open Representatives RoundRobin Xdp.Startup

/-- The files of `cpuN/topology` that are read. -/
inductive TopologyFile where
  | coreId
  | physicalPackageId
deriving DecidableEq, Repr

/-- What `/sys/devices/system/cpu` answers, and `num_cpus::get_physical`. -/
structure Sysfs where
  /-- The names in the directory, unless it cannot be read.  Entries that cannot be read and names
  that are not text are passed over. -/
  names : Option (List Text)
  /-- The file in `cpuN/topology`. -/
  topologyFile : ℕ → TopologyFile → Option Text
  /-- The entries of `cpuN`, `none` for one that cannot be read. -/
  cpuEntries : ℕ → Option (List (Option Text))
  numPhysical : ℕ
  numPhysical_pos : 0 < numPhysical

/-- The CPU a directory is for: `cpu` and digits. -/
def cpuId (name : Text) : Option ℕ := do
  let digits ← Text.stripStart ['c', 'p', 'u'] name
  if digits ≠ [] ∧ digits.all Char.isDigit then Text.parseUsize digits else none

namespace Sysfs

variable (fs : Sysfs)

/-- `read_topo`. -/
def readTopo (cpu : ℕ) (file : TopologyFile) : Option ℕ := do
  let s ← fs.topologyFile cpu file
  Text.parseUsize s.trim

/-- The package and the core of a CPU.  A CPU without a core is left out; one without a package is
taken to be on package 0. -/
def coreOf (cpu : ℕ) : Option (ℕ × ℕ) :=
  (fs.readTopo cpu .coreId).map fun core => ((fs.readTopo cpu .physicalPackageId).getD 0, core)

/-- The CPUs that have a directory, in ascending order. -/
def ids (names : List Text) : List ℕ := (names.filterMap cpuId).insertionSort (· ≤ ·)

/-- `physical_cores`. -/
def physicalCores : List ℕ :=
  match fs.names with
  | none => List.range fs.numPhysical
  | some names =>
    let cores := firsts fs.coreOf (ids names) []
    if cores = [] then List.range fs.numPhysical else cores

/-- The loop of `numa_node_for_cpu`. -/
def nodeEntry : List (Option Text) → Option ℕ
  | [] => none
  | none :: _ => none
  | some name :: entries =>
    match (Text.stripStart ['n', 'o', 'd', 'e'] name).bind Text.parseUsize with
    | some n => some n
    | none => nodeEntry entries

/-- `numa_node_for_cpu`. -/
def numaNodeForCpu (cpu : ℕ) : Option ℕ := (fs.cpuEntries cpu).bind nodeEntry

/-- A CPU that has a directory, and its core. -/
def OnCore (cpu : ℕ) (core : ℕ × ℕ) : Prop :=
  (∃ names, fs.names = some names ∧ cpu ∈ names.filterMap cpuId) ∧ fs.coreOf cpu = some core

/-! ## One CPU of each core -/

section Listed

variable {fs} {names : List Text}

theorem onCore_iff (h : fs.names = some names) {cpu : ℕ} {core : ℕ × ℕ} :
    fs.OnCore cpu core ↔ cpu ∈ ids names ∧ fs.coreOf cpu = some core := by
  simp only [OnCore, ids, h, Option.some.injEq, exists_eq_left', List.mem_insertionSort]

theorem pairwise_le_ids : (ids names).Pairwise (· ≤ ·) := List.pairwise_insertionSort _ _

/-- The CPUs that are kept, in ascending order. -/
theorem pairwise_lt_firsts : (firsts fs.coreOf (ids names) []).Pairwise (· < ·) := by
  have hle := pairwise_le_ids.sublist (firsts_sublist fs.coreOf (ids names) [])
  refine (hle.and (pairwise_firsts fs.coreOf (ids names) [])).imp fun {a b} hab => ?_
  obtain ⟨hle, hcore⟩ := hab
  refine Nat.lt_of_le_of_ne hle ?_
  rintro rfl
  exact hcore rfl

theorem onCore_of_mem_firsts (h : fs.names = some names) {c : ℕ} {core : ℕ × ℕ}
    (hc : c ∈ firsts fs.coreOf (ids names) []) (hcore : fs.coreOf c = some core) : fs.OnCore c core :=
  (onCore_iff h).mpr ⟨(firsts_sublist fs.coreOf (ids names) []).subset hc, hcore⟩

/-- The CPU that is kept for a core is below all others of the core. -/
theorem exists_mem_firsts_le (h : fs.names = some names) {cpu : ℕ} {core : ℕ × ℕ}
    (hcpu : fs.OnCore cpu core) :
    ∃ c ∈ firsts fs.coreOf (ids names) [], fs.coreOf c = some core ∧ c ≤ cpu := by
  obtain ⟨hmem, hcore⟩ := (onCore_iff h).mp hcpu
  obtain ⟨c, hc, hccore, hle⟩ :=
    exists_first pairwise_le_ids hmem hcore (show core ∉ [] from List.not_mem_nil)
  exact ⟨c, hc, hccore, hle.elim Nat.le_of_eq id⟩

/-- A CPU is kept if it is the least one of its core. -/
theorem mem_firsts_iff (h : fs.names = some names) (c : ℕ) :
    c ∈ firsts fs.coreOf (ids names) [] ↔ ∃ core, IsLeast {cpu | fs.OnCore cpu core} c := by
  constructor
  · intro hc
    obtain ⟨core, hcore, -⟩ := exists_key_of_mem hc
    refine ⟨core, onCore_of_mem_firsts h hc hcore, fun cpu hcpu => ?_⟩
    obtain ⟨b, hb, hbcore, hle⟩ := exists_mem_firsts_le h hcpu
    have hbc : b = c := eq_of_key_eq hb hc (hbcore.trans hcore.symm)
    exact hbc ▸ hle
  · rintro ⟨core, hc, hleast⟩
    obtain ⟨b, hb, hbcore, hle⟩ := exists_mem_firsts_le h hc
    have hbc : b = c := Nat.le_antisymm hle (hleast (onCore_of_mem_firsts h hb hbcore))
    exact hbc ▸ hb

/-- The topology was of use: some CPU has a core. -/
theorem firsts_ne_nil_iff (h : fs.names = some names) :
    firsts fs.coreOf (ids names) [] ≠ [] ↔ ∃ cpu core, fs.OnCore cpu core := by
  constructor
  · intro hne
    obtain ⟨c, hc⟩ := List.exists_mem_of_ne_nil _ hne
    obtain ⟨core, hcore, -⟩ := exists_key_of_mem hc
    exact ⟨c, core, onCore_of_mem_firsts h hc hcore⟩
  · rintro ⟨cpu, core, hcpu⟩
    obtain ⟨c, hc, -⟩ := exists_mem_firsts_le h hcpu
    exact List.ne_nil_of_mem hc

end Listed

/-- Without a topology the CPUs are counted. -/
theorem physicalCores_of_forall_not (h : ¬ ∃ cpu core, fs.OnCore cpu core) :
    fs.physicalCores = List.range fs.numPhysical := by
  unfold physicalCores
  split
  · rfl
  · next names hnames => exact if_pos (not_not.mp (mt (firsts_ne_nil_iff hnames).mp h))

theorem physicalCores_of_onCore {cpu : ℕ} {core : ℕ × ℕ} (h : fs.OnCore cpu core) :
    ∃ names, fs.names = some names ∧ fs.physicalCores = firsts fs.coreOf (ids names) [] := by
  obtain ⟨names, hnames, -⟩ := h.1
  refine ⟨names, hnames, ?_⟩
  rw [physicalCores, hnames]
  exact if_neg ((firsts_ne_nil_iff hnames).mpr ⟨cpu, core, h⟩)

theorem pairwise_lt_physicalCores : fs.physicalCores.Pairwise (· < ·) := by
  by_cases h : ∃ cpu core, fs.OnCore cpu core
  · obtain ⟨cpu, core, h⟩ := h
    obtain ⟨names, -, heq⟩ := fs.physicalCores_of_onCore h
    rw [heq]
    exact pairwise_lt_firsts
  · rw [fs.physicalCores_of_forall_not h]
    exact List.pairwise_lt_range

theorem nodup_physicalCores : fs.physicalCores.Nodup := fs.pairwise_lt_physicalCores.imp Nat.ne_of_lt

theorem physicalCores_ne_nil : fs.physicalCores ≠ [] := by
  by_cases h : ∃ cpu core, fs.OnCore cpu core
  · obtain ⟨cpu, core, h⟩ := h
    obtain ⟨names, hnames, heq⟩ := fs.physicalCores_of_onCore h
    rw [heq]
    exact (firsts_ne_nil_iff hnames).mpr ⟨cpu, core, h⟩
  · rw [fs.physicalCores_of_forall_not h]
    exact fun hnil => fs.numPhysical_pos.ne' (List.range_eq_nil.mp hnil)

/-- The list ascends; a CPU is on it exactly if it has a directory and is the least CPU of its core, so each
core of each package is there once and no sibling thread is.  Only if no CPU tells its core are the CPUs
counted from 0. -/
theorem physical_cores_one_each :
    fs.physicalCores.Pairwise (· < ·) ∧
      ((∃ cpu core, fs.OnCore cpu core) →
        ∀ c, c ∈ fs.physicalCores ↔ ∃ core, IsLeast {cpu | fs.OnCore cpu core} c) ∧
      ((¬ ∃ cpu core, fs.OnCore cpu core) → fs.physicalCores = List.range fs.numPhysical) := by
  refine ⟨fs.pairwise_lt_physicalCores, ?_, fs.physicalCores_of_forall_not⟩
  rintro ⟨cpu, core, h⟩ c
  obtain ⟨names, hnames, heq⟩ := fs.physicalCores_of_onCore h
  rw [heq]
  exact mem_firsts_iff hnames c

/-! ## The cores of the workers -/

/-- The topology the AF_XDP stacks are started with. -/
def topology : Topology where
  physicalCores := fs.physicalCores
  nodup := fs.nodup_physicalCores
  numaNodeForCpu := fs.numaNodeForCpu

/-- `init_cpu_pinning`, for a NIC on `node`.  `PINNED_CORES` is set once. -/
def initCpuPinning (node : Option ℕ) (pinnedCores : Option (List ℕ)) : Option (List ℕ) :=
  some (pinnedCores.getD (fs.topology.physicalCoresNumaSorted node))

/-- `pin_to_cpu`: the core of the calling thread.  `none` is a panic. -/
def pinToCpu (worker : ℕ) (pinnedCores : Option (List ℕ)) : Option ℕ × Option (List ℕ) :=
  let cores := pinnedCores.getD fs.physicalCores
  (cores[worker % cores.length]?, some cores)

/-- The cores of workers that pin themselves in this order. -/
def pins : List ℕ → Option (List ℕ) → List (Option ℕ)
  | [], _ => []
  | w :: ws, pinnedCores =>
    let r := fs.pinToCpu w pinnedCores
    r.1 :: pins ws r.2

/-- `auto_concurrent` of `main`. -/
def autoConcurrent : ℕ := max fs.physicalCores.length 8

/-- The physical cores of a node. -/
def localCores (node : ℕ) : List ℕ := fs.physicalCores.filter fun c => fs.numaNodeForCpu c = some node

theorem pins_some (cores ws : List ℕ) :
    fs.pins ws (some cores) = ws.map fun w => cores[w % cores.length]? := by
  induction ws with
  | nil => rfl
  | cons w ws ih =>
    rw [List.map_cons, ← ih]
    rfl

section Sorted

variable (node : Option ℕ)

theorem numaSorted_some (m : ℕ) :
    fs.topology.physicalCoresNumaSorted (some m)
      = fs.localCores m ++ fs.physicalCores.filter fun c => ¬ fs.numaNodeForCpu c = some m := rfl

/-- Sorting by node only moves cores. -/
theorem numaSorted_perm : (fs.topology.physicalCoresNumaSorted node).Perm fs.physicalCores := by
  cases node with
  | none => exact List.Perm.refl _
  | some m =>
    rw [numaSorted_some, localCores]
    simp only [decide_not]
    exact List.filter_append_perm _ _

theorem numaSorted_length :
    (fs.topology.physicalCoresNumaSorted node).length = fs.physicalCores.length :=
  (fs.numaSorted_perm node).length_eq

theorem physicalCores_length_pos : 0 < fs.physicalCores.length :=
  List.length_pos_of_ne_nil fs.physicalCores_ne_nil

/-- The cores up to the number of local ones are on the node, and no others. -/
theorem node_of_numaSorted {m i c : ℕ}
    (h : (fs.topology.physicalCoresNumaSorted (some m))[i]? = some c) :
    fs.numaNodeForCpu c = some m ↔ i < (fs.localCores m).length := by
  rw [numaSorted_some] at h
  rcases Nat.lt_or_ge i (fs.localCores m).length with hlt | hge
  · rw [List.getElem?_append_left hlt] at h
    have hc := (List.mem_filter.mp (List.mem_of_getElem? h)).2
    exact iff_of_true (of_decide_eq_true hc) hlt
  · rw [List.getElem?_append_right hge] at h
    have hc := (List.mem_filter.mp (List.mem_of_getElem? h)).2
    exact iff_of_false (of_decide_eq_true hc) hge.not_gt

end Sorted

/-! ## The cores the workers are dealt -/

section Workers

variable (node : Option ℕ) {n : ℕ} {ws : List ℕ}

/-- The core of worker `w`. -/
theorem exists_core (w : ℕ) :
    ∃ c ∈ fs.physicalCores,
      (fs.topology.physicalCoresNumaSorted node)[w % fs.physicalCores.length]? = some c := by
  have hlt : w % fs.physicalCores.length < (fs.topology.physicalCoresNumaSorted node).length := by
    rw [fs.numaSorted_length]
    exact Nat.mod_lt _ fs.physicalCores_length_pos
  have hget := List.getElem?_eq_getElem hlt
  exact ⟨_, (fs.numaSorted_perm node).subset (List.mem_of_getElem? hget), hget⟩

theorem pins_init :
    fs.pins ws (fs.initCpuPinning node none)
      = ws.map fun w => (fs.topology.physicalCoresNumaSorted node)[w % fs.physicalCores.length]? := by
  rw [← fs.numaSorted_length node]
  exact fs.pins_some _ ws

/-- The workers take turns over the cores. -/
theorem pins_perm_turns (hws : ws.Perm (List.range n)) :
    (fs.pins ws (fs.initCpuPinning node none)).Perm
      (((turns fs.physicalCores.length 0 n).map
        fun j => (fs.topology.physicalCoresNumaSorted node).getD j 0).map some) := by
  rw [pins_init, turns, List.map_map, List.map_map]
  refine (hws.map _).trans (List.Perm.of_eq (List.map_congr_left fun w _ => ?_))
  obtain ⟨c, -, hc⟩ := fs.exists_core node w
  simp only [Function.comp_apply, Nat.zero_add, List.getD_eq_getElem?_getD, hc, Option.getD_some]

/-- A core's share of the workers. -/
theorem count_pins (hws : ws.Perm (List.range n)) {c : ℕ} (hc : c ∈ fs.physicalCores) :
    n / fs.physicalCores.length ≤ (fs.pins ws (fs.initCpuPinning node none)).count (some c) ∧
      (fs.pins ws (fs.initCpuPinning node none)).count (some c) ≤ n / fs.physicalCores.length + 1 := by
  have hlen := fs.numaSorted_length node
  have hone : (fs.topology.physicalCoresNumaSorted node).count c = 1 := by
    rw [(fs.numaSorted_perm node).count_eq, List.count_eq_one_of_mem fs.nodup_physicalCores hc]
  have hturns : ∀ j ∈ turns fs.physicalCores.length 0 n,
      j < (fs.topology.physicalCoresNumaSorted node).length := by
    intro j hj
    obtain ⟨k, -, rfl⟩ := List.mem_map.mp hj
    rw [hlen]
    exact Nat.mod_lt _ fs.physicalCores_length_pos
  have hcount := count_map_bounds (fs.topology.physicalCoresNumaSorted node) 0 hturns
    (fun j hj => (count_turns (hlen ▸ hj) 0 n).1) (fun j hj => (count_turns (hlen ▸ hj) 0 n).2) c
  rw [hone, Nat.one_mul, Nat.one_mul] at hcount
  rw [(fs.pins_perm_turns node hws).count_eq,
    List.count_map_of_injective _ some (Option.some_injective ℕ)]
  exact hcount

/-- No core has two workers exactly if there are cores for all of them. -/
theorem nodup_pins_iff (hws : ws.Perm (List.range n)) :
    (fs.pins ws (fs.initCpuPinning node none)).Nodup ↔ n ≤ fs.physicalCores.length := by
  rw [pins_init]
  constructor
  · intro hnodup
    have hsubset : (ws.map fun w =>
        (fs.topology.physicalCoresNumaSorted node)[w % fs.physicalCores.length]?) ⊆
        fs.physicalCores.map some := by
      intro cpu hcpu
      obtain ⟨w, -, rfl⟩ := List.mem_map.mp hcpu
      obtain ⟨c, hc, hget⟩ := fs.exists_core node w
      exact List.mem_map.mpr ⟨c, hc, hget.symm⟩
    have hle := (List.subperm_of_subset hnodup hsubset).length_le
    rwa [List.length_map, List.length_map, hws.length_eq, List.length_range] at hle
  · intro hle
    refine List.Nodup.map_on ?_ (hws.nodup_iff.mpr List.nodup_range)
    intro v hv w hw hvw
    have hmod : ∀ u ∈ ws, u % fs.physicalCores.length = u := fun u hu =>
      Nat.mod_eq_of_lt ((List.mem_range.mp (hws.subset hu)).trans_le hle)
    obtain ⟨c, -, hc⟩ := fs.exists_core node v
    have hnodup := (fs.numaSorted_perm node).nodup_iff.mpr fs.nodup_physicalCores
    have heq := (List.getElem?_inj (List.getElem?_eq_some_iff.mp hc).1 hnodup).mp hvw
    rwa [hmod v hv, hmod w hw] at heq

theorem localCores_length_le (m : ℕ) : (fs.localCores m).length ≤ fs.physicalCores.length :=
  List.length_filter_le _ _

/-- The workers are all on the NIC's node exactly if its cores suffice or there are no others. -/
theorem forall_pins_node_iff (m : ℕ) (hws : ws.Perm (List.range n)) :
    (∀ cpu ∈ fs.pins ws (fs.initCpuPinning (some m) none), cpu.bind fs.numaNodeForCpu = some m) ↔
      n ≤ (fs.localCores m).length ∨ (fs.localCores m).length = fs.physicalCores.length := by
  have hworker : ∀ w, ((fs.topology.physicalCoresNumaSorted (some m))[w % fs.physicalCores.length]?.bind
      fs.numaNodeForCpu = some m ↔ w % fs.physicalCores.length < (fs.localCores m).length) := by
    intro w
    obtain ⟨c, -, hc⟩ := fs.exists_core (some m) w
    rw [hc, Option.bind_some]
    exact fs.node_of_numaSorted hc
  have hall : (∀ cpu ∈ fs.pins ws (fs.initCpuPinning (some m) none),
      cpu.bind fs.numaNodeForCpu = some m) ↔
      ∀ w < n, w % fs.physicalCores.length < (fs.localCores m).length := by
    rw [pins_init, List.forall_mem_map]
    exact forall_congr' fun w =>
      imp_congr (hws.mem_iff.trans List.mem_range) (hworker w)
  have hle := fs.localCores_length_le m
  rw [hall]
  constructor
  · intro h
    by_contra hnot
    obtain ⟨hn, hne⟩ := not_or.mp hnot
    -- the first worker after the local cores
    have hfirst := h (fs.localCores m).length (Nat.lt_of_not_le hn)
    rw [Nat.mod_eq_of_lt (Nat.lt_of_le_of_ne hle hne)] at hfirst
    exact Nat.lt_irrefl _ hfirst
  · rintro (hn | heq) w hw
    · exact (Nat.mod_le w _).trans_lt (hw.trans_le hn)
    · rw [heq]
      exact Nat.mod_lt _ fs.physicalCores_length_pos

/-- In whatever order the workers `0 .. n - 1` of one run pin themselves, each gets a physical core; the cores
have the same number of workers up to one, and none has two exactly if `n` is at most the number of cores.
They all run on the NIC's node exactly if `n` is at most the number of the node's cores, or the host has no
others; with the number of workers chosen automatically, only in the latter case. -/
theorem workers_pinned (hws : ws.Perm (List.range n)) :
    (∀ cpu ∈ fs.pins ws (fs.initCpuPinning node none), ∃ c ∈ fs.physicalCores, cpu = some c) ∧
      (∀ c ∈ fs.physicalCores,
        n / fs.physicalCores.length ≤ (fs.pins ws (fs.initCpuPinning node none)).count (some c) ∧
        (fs.pins ws (fs.initCpuPinning node none)).count (some c) ≤ n / fs.physicalCores.length + 1) ∧
      ((fs.pins ws (fs.initCpuPinning node none)).Nodup ↔ n ≤ fs.physicalCores.length) ∧
      ∀ m, node = some m →
        ((∀ cpu ∈ fs.pins ws (fs.initCpuPinning node none), cpu.bind fs.numaNodeForCpu = some m) ↔
          n ≤ (fs.localCores m).length ∨ (fs.localCores m).length = fs.physicalCores.length) ∧
        (n = fs.autoConcurrent →
          ((∀ cpu ∈ fs.pins ws (fs.initCpuPinning node none), cpu.bind fs.numaNodeForCpu = some m) ↔
            ∀ c ∈ fs.physicalCores, fs.numaNodeForCpu c = some m)) := by
  refine ⟨fun cpu hcpu => ?_, fun c hc => fs.count_pins node hws hc, fs.nodup_pins_iff node hws, ?_⟩
  · rw [pins_init] at hcpu
    obtain ⟨w, -, rfl⟩ := List.mem_map.mp hcpu
    exact fs.exists_core node w
  · rintro m rfl
    have hnode := fs.forall_pins_node_iff m hws
    refine ⟨hnode, fun hauto => hnode.trans ?_⟩
    have hall : (fs.localCores m).length = fs.physicalCores.length ↔
        ∀ c ∈ fs.physicalCores, fs.numaNodeForCpu c = some m := by
      simp only [localCores, List.length_filter_eq_length_iff, decide_eq_true_eq]
    have hle := fs.localCores_length_le m
    have hmax : fs.physicalCores.length ≤ fs.autoConcurrent := Nat.le_max_left _ _
    rw [← hall, hauto]
    exact ⟨fun h => h.elim (fun h => by omega) id, .inr⟩

end Workers

end Sysfs

/-! ## A host with two nodes -/

/-- Four CPUs, two cores of two threads; the second core is on a node of its own. -/
def twoNodes : Sysfs where
  names := some (["cpuidle", "cpu3", "cpu0", "cpu2", "possible", "cpu1"].map String.toList)
  topologyFile cpu file :=
    match file with
    | .coreId => some (Text.decimal 0 ++ ['\n'])
    | .physicalPackageId => some (Text.decimal (cpu % 2) ++ ['\n'])
  cpuEntries cpu := some [some "topology".toList, some ("node".toList ++ Text.decimal (cpu % 2))]
  numPhysical := 1
  numPhysical_pos := Nat.one_pos

theorem onCore_twoNodes : twoNodes.OnCore 3 (1, 0) :=
  ⟨⟨_, rfl, by decide⟩, by decide⟩

/-- CPU 1 is on the list and is the least one of its core; CPU 3 is its sibling and is not. -/
theorem physical_cores_one_each_twoNodes :
    (∃ core, IsLeast {cpu | twoNodes.OnCore cpu core} 1) ∧
      ¬ ∃ core, IsLeast {cpu | twoNodes.OnCore cpu core} 3 := by
  have hmem := (twoNodes.physical_cores_one_each).2.1 ⟨3, (1, 0), onCore_twoNodes⟩
  exact ⟨(hmem 1).mp (by decide), mt (hmem 3).mpr (by decide)⟩

/-- An automatic run has eight workers on the two cores, not all of them on the NIC's node. -/
theorem workers_pinned_twoNodes :
    twoNodes.autoConcurrent = 8 ∧
      (twoNodes.pins (List.range 8) (twoNodes.initCpuPinning (some 1) none)).count (some 0) ≤ 5 ∧
      ¬ ∀ cpu ∈ twoNodes.pins (List.range 8) (twoNodes.initCpuPinning (some 1) none),
        cpu.bind twoNodes.numaNodeForCpu = some 1 := by
  obtain ⟨-, hcount, -, hnode⟩ := twoNodes.workers_pinned (some 1) (List.Perm.refl (List.range 8))
  exact ⟨by decide, (hcount 0 (by decide)).2, mt ((hnode 1 rfl).2 (by decide)).mp (by decide)⟩

end Dnsmark.Cpus
