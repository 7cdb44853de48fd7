import DarlingServer.Lib.Crowd
import DarlingServer.Lib.RefCounts
import DarlingServer.Lib.Runs
import DarlingServer.SharedEntries
/-!
# Shared remaps

`mach_vm_remap_external_shared` puts a region of one task into a file in memory, maps the file
in place of the region and in another task, and notes both mappings as entries of the maps.
An entry keeps a reference to the file's descriptor, as does the remap while it is under way;
the file is closed with the last reference.

Operations come one after the other. A remap goes through its calls step by step, so that
what is said of a state is also said of those in the middle of a remap. The kernel puts a new
mapping at any pages that are free.

`mach_vm_deallocate` does not look at the entries, so an entry can outlive its mapping, and a
later remap can then be given the same address (`stale_entry_leaks`). As long as nothing that
an entry is about is unmapped, the entries are right and the counts are too.
-/

namespace DarlingServer.SharedRemaps

open PageRanges SharedEntries Ordered RefCounts Runs

/-! ## Maps and descriptors -/

/-- What a page of a task is mapped to. -/
inductive Backing where
  | free
  | other
  | file (descriptor pageOffset : Nat)
  deriving DecidableEq

/-- The map of a task, with the pages of the task. -/
structure VmMap where
  entries : Entries := Tree.empty
  space : Nat → Backing
  live : Bool := true

def VmMap.mapFile (first count descriptor : Nat) (m : VmMap) : VmMap :=
  { m with space := fun j => if first ≤ j ∧ j < first + count then .file descriptor (j - first) else m.space j }

def VmMap.unmap (first count : Nat) (m : VmMap) : VmMap :=
  { m with space := fun j => if first ≤ j ∧ j < first + count then .free else m.space j }

def VmMap.insertSharedEntry (entry : Entry) (m : VmMap) : VmMap := { m with entries := m.entries.insert entry }

/-- The descriptors are counted with their sizes. -/
structure Core where
  maps : List VmMap
  descriptors : List (Counted Nat) := []

def Core.setMap (c : Core) (i : Nat) (m : VmMap) : Core := { c with maps := c.maps.set i m }

def Core.retain (c : Core) (d : Nat) : Core := { c with descriptors := RefCounts.retain c.descriptors d }

def Core.release (c : Core) (d : Nat) : Core := { c with descriptors := RefCounts.release c.descriptors d }

/-! ## The remap -/

structure Remap where
  src : Nat
  target : Nat
  memoryAddress : Nat
  size : Nat
  returnDataAddr : Bool := false
  deriving DecidableEq

def Remap.startMemaddr (page : PageSize) (r : Remap) : Nat := (pageRange page r.memoryAddress r.size).1

def Remap.mapSize (page : PageSize) (r : Remap) : Nat := (pageRange page r.memoryAddress r.size).2

def Remap.pageCount (page : PageSize) (r : Remap) : Nat := byteCountToPageCountRoundUp page (r.mapSize page)

/-- What a call returns. -/
structure Answer where
  kr : PageRanges.KernReturn
  address : Option Nat := none
  curProtection : Option Prot := none
  maxProtection : Option Prot := none
  deriving DecidableEq

/-- What comes next in a remap, and the references it has. -/
inductive Phase where
  | prepare
  | copyin (descriptor : Nat)
  | mapSource (descriptor : Nat)
  | createSource (descriptor : Nat)
  | insertSource (descriptor : Nat) (entry : Entry)
  | mapTarget (descriptor : Nat)
  | createTarget (descriptor targetAddr : Nat)
  | insertTarget (descriptor : Nat) (entry : Entry)
  | out (descriptor : Nat) (answer : Answer)
  deriving DecidableEq

/-- What the system answers: for the file with its descriptor, the copy into it, a mapping at a
given address and at any address, and the memory for an entry. -/
inductive Event where
  | prepared (ok : Bool)
  | copied (kr : PageRanges.KernReturn)
  | mappedFixed (ok : Bool)
  | mapped (address : Option Nat)
  | allocated (ok : Bool)
  | next
  deriving DecidableEq

inductive Next where
  | phase (phase : Phase)
  | done (answer : Answer)

/-- The kernel maps whole pages, at least one, and not the last ones. -/
def mappable (page : PageSize) (address pageCount : Nat) : Bool :=
  address % page.size = 0 && 0 < pageCount && address + pageCount * page.size < word

def VmMap.isFree (first count : Nat) (m : VmMap) : Bool := (List.range count).all fun k => m.space (first + k) = .free

/-- `prot` is the protection of the source's region. -/
def remapStep (page : PageSize) (r : Remap) (prot : Prot) (c : Core) : Phase → Event → Option (Core × Next)
  | .prepare, .prepared ok =>
    if ok then
      -- a file of no size is not mapped
      if r.mapSize page = 0 then none
      else some ({ c with descriptors := create c.descriptors (r.mapSize page) }, .phase (.copyin c.descriptors.length))
    else some (c, .done { kr := .resourceShortage })
  | .copyin d, .copied kr => some (c, .phase (if kr = .success then .mapSource d else .out d { kr }))
  | .mapSource d, .mappedFixed ok =>
    -- the hook returns 0 if it fails, which is compared with the address
    if (if ok then r.startMemaddr page else 0) = r.startMemaddr page then
      if ok then
        match c.maps[r.src]? with
        | some m =>
          if mappable page (r.startMemaddr page) (r.pageCount page) then
            some (c.setMap r.src (m.mapFile (r.startMemaddr page / page.size) (r.pageCount page) d),
              .phase (.createSource d))
          else none
        | none => none
      else some (c, .phase (.createSource d))
    else some (c, .phase (.out d { kr := .failure }))
  | .createSource d, .allocated ok =>
    if ok then some (c.retain d, .phase (.insertSource d ⟨r.startMemaddr page, r.mapSize page, 0, d⟩))
    else some (c, .phase (.out d { kr := .resourceShortage }))
  | .insertSource d entry, .next =>
    (c.maps[r.src]?).map fun m => (c.setMap r.src (m.insertSharedEntry entry), .phase (.mapTarget d))
  | .mapTarget d, .mapped none => some (c, .phase (.out d { kr := .failure }))
  | .mapTarget d, .mapped (some address) =>
    match c.maps[r.target]? with
    | some m =>
      if mappable page address (r.pageCount page) && m.isFree (address / page.size) (r.pageCount page) then
        some (c.setMap r.target (m.mapFile (address / page.size) (r.pageCount page) d),
          .phase (if address = 0 then .out d { kr := .failure } else .createTarget d address))
      else none
    | none => none
  | .createTarget d targetAddr, .allocated ok =>
    if ok then some (c.retain d, .phase (.insertTarget d ⟨targetAddr, r.mapSize page, 0, d⟩))
    else some (c, .phase (.out d { kr := .resourceShortage }))
  | .insertTarget d entry, .next =>
    (c.maps[r.target]?).map fun m =>
      (c.setMap r.target (m.insertSharedEntry entry),
        .phase (.out d {
          kr := .success
          address := some (if r.returnDataAddr then
            Pages.add word entry.address (Pages.sub word r.memoryAddress (r.startMemaddr page)) else entry.address)
          curProtection := some prot
          maxProtection := some { read := true, write := true, execute := true } }))
  | .out d answer, .next => some (c.release d, .done answer)
  | _, _ => none

/-! ## All operations -/

inductive Activity where
  | idle
  | remapping (r : Remap) (prot : Prot) (phase : Phase)
  | destroying (i : Nat) (removed : Option Entry)
  /-- The server has stopped at `dtape_stub_unsafe`. -/
  | stopped
  deriving DecidableEq

structure State where
  core : Core
  activity : Activity := .idle
  answer : Option Answer := none

inductive Label where
  | remap (r : Remap) (region : Option Prot)
  | event (e : Event)
  | deallocate (i start size : Nat) (granted : Bool)
  | destroy (i : Nat)
  deriving DecidableEq

/-- The pages of the requests are unmapped if these are granted. -/
def VmMap.freePages (page : PageSize) (granted : Bool) (requests : List Request) (m : VmMap) : VmMap :=
  if granted then
    requests.foldl (fun m r => m.unmap ((r.pages page).1 / page.size) (r.pages page).2) m
  else m

/-- The start of a remap, up to where the entries of the source are unlocked. -/
def beginRemap (page : PageSize) (s : State) (r : Remap) (region : Option Prot) (src : VmMap) : State :=
  match region with
  | none => { s with answer := some { kr := .failure } }
  | some prot =>
    match setupSource src.entries (r.startMemaddr page) (r.mapSize page) with
    | .reuse d => { s with core := s.core.retain d, activity := .remapping r prot (.mapTarget d) }
    | .stub => { s with activity := .stopped }
    | .fresh => { s with activity := .remapping r prot .prepare }

/-- `dtape_vm_map_destroy` takes the entries out one by one and destroys them. -/
def destroyStep (s : State) (i : Nat) (removed : Option Entry) : Option State :=
  match removed with
  | some entry => some { s with core := s.core.release entry.descriptor, activity := .destroying i none }
  | none =>
    match s.core.maps[i]? with
    | none => none
    | some m =>
      match m.entries.entries with
      | [] => some { s with core := s.core.setMap i { m with live := false }, activity := .idle }
      | entry :: _ =>
        some { s with
          core := s.core.setMap i { m with entries := m.entries.tail }
          activity := .destroying i (some entry) }

def step (page : PageSize) (s : State) (l : Label) : Option State :=
  match s.activity, l with
  | .idle, .remap r region =>
    match s.core.maps[r.src]?, s.core.maps[r.target]? with
    | some src, some target =>
      if src.live && target.live && r.memoryAddress < word && r.size < word then
        some (beginRemap page s r region src)
      else none
    | _, _ => none
  | .remapping r prot phase, .event e =>
    match remapStep page r prot s.core phase e with
    | some (c, .phase phase) => some { s with core := c, activity := .remapping r prot phase }
    | some (c, .done answer) => some { core := c, activity := .idle, answer := some answer }
    | none => none
  | .idle, .deallocate i start size granted =>
    match s.core.maps[i]? with
    | some m =>
      if m.live && start < word && size < word then
        let (kr, requests) := machVmDeallocate page (some .task) start size granted
        some { s with core := s.core.setMap i (m.freePages page granted requests), answer := some { kr } }
      else none
    | none => none
  | .idle, .destroy i =>
    match s.core.maps[i]? with
    | some m => if m.live then some { s with activity := .destroying i none } else none
    | none => none
  | .destroying i removed, .event .next => destroyStep s i removed
  | _, _ => none

/-- Maps without entries, and nothing under way. -/
def Init (s : State) : Prop :=
  (∀ m ∈ s.core.maps, m.entries.entries = []) ∧ s.core.descriptors = [] ∧ s.activity = .idle

/-! ## The entries and the mappings -/

/-- The descriptor and the offset that an address is mapped to. -/
def backingAt (page : PageSize) (space : Nat → Backing) (address : Nat) : Option (Nat × Nat) :=
  match space (address / page.size) with
  | .file d offset => some (d, offset * page.size + address % page.size)
  | _ => none

/-- Every address of the entry is mapped to what the entry says. -/
def Describes (page : PageSize) (space : Nat → Backing) (entry : Entry) : Prop :=
  ∀ address, entry.address ≤ address → address < entry.address + entry.size →
    backingAt page space address = some (entry.descriptor, entry.pageOffset * page.size + (address - entry.address))

/-- The same page by page, for an entry of whole pages. -/
structure Held (page : PageSize) (space : Nat → Backing) (entry : Entry) : Prop where
  proper : entry.Proper
  aligned : page.size ∣ entry.address
  whole : page.size ∣ entry.size
  mapped : ∀ k, k < entry.size / page.size →
    space (entry.address / page.size + k) = .file entry.descriptor (entry.pageOffset + k)

/-- No page of the entry is among `count` pages from `first` on. -/
def apart (page : PageSize) (first count : Nat) (entry : Entry) : Bool :=
  count = 0 || entry.address / page.size + entry.size / page.size ≤ first || first + count ≤ entry.address / page.size

section Held
variable {page : PageSize} {space space' : Nat → Backing} {entry : Entry} {m : VmMap} {first count d : Nat}

theorem Held.describes (h : Held page space entry) : Describes page space entry := by
  intro address hlow hhigh
  obtain ⟨t, rfl⟩ := Nat.exists_eq_add_of_le hlow
  have hpos := page.pos
  obtain ⟨q, hq⟩ := h.aligned
  obtain ⟨n, hn⟩ := h.whole
  have hdiv : (entry.address + t) / page.size = entry.address / page.size + t / page.size := by
    rw [hq, Nat.mul_add_div hpos, Nat.mul_div_cancel_left q hpos]
  have hmod : (entry.address + t) % page.size = t % page.size := by
    rw [hq, Nat.mul_add_mod]
  have hlt : t / page.size < entry.size / page.size := by
    rw [hn, Nat.mul_div_cancel_left n hpos, Nat.div_lt_iff_lt_mul hpos, Nat.mul_comm]
    omega
  rw [backingAt, hdiv, h.mapped _ hlt, hmod, Nat.add_sub_cancel_left]
  simp only [Option.some.injEq, Prod.mk.injEq, true_and]
  rw [Nat.add_mul, Nat.add_assoc, Nat.div_add_mod']

theorem Held.congr (h : Held page space entry)
    (heq : ∀ k, k < entry.size / page.size →
      space' (entry.address / page.size + k) = space (entry.address / page.size + k)) :
    Held page space' entry :=
  ⟨h.proper, h.aligned, h.whole, fun k hk => (heq k hk).trans (h.mapped k hk)⟩

theorem apart_iff : apart page first count entry = true ↔
    count = 0 ∨ entry.address / page.size + entry.size / page.size ≤ first ∨
      first + count ≤ entry.address / page.size := by
  simp [apart, or_assoc]

theorem Held.mapFile (h : Held page m.space entry) (hapart : apart page first count entry = true) :
    Held page (m.mapFile first count d).space entry := by
  refine h.congr fun k hk => if_neg ?_
  have := apart_iff.1 hapart
  omega

theorem Held.pageCount_pos (h : Held page space entry) : 0 < entry.size / page.size :=
  Nat.div_pos (Nat.le_of_dvd h.proper.pos h.whole) page.pos

/-- The first page that is in both. -/
theorem Held.exists_page (h : Held page space entry) (hnot : ¬ apart page first count entry = true) :
    ∃ k, k < entry.size / page.size ∧ first ≤ entry.address / page.size + k ∧
      entry.address / page.size + k < first + count := by
  have hsize := h.pageCount_pos
  simp only [apart_iff, not_or, Nat.not_le] at hnot
  exact ⟨max (entry.address / page.size) first - entry.address / page.size, by omega, by omega⟩

/-- Pages that are free are apart from what an entry is about. -/
theorem Held.apart_of_isFree (h : Held page m.space entry) (hfree : m.isFree first count = true) :
    apart page first count entry = true := by
  by_contra hnot
  obtain ⟨k, hk, hpage⟩ := h.exists_page hnot
  have hall := List.all_eq_true.1 hfree (entry.address / page.size + k - first) (List.mem_range.2 (by omega))
  rw [Nat.add_sub_cancel' hpage.1, h.mapped k hk] at hall
  simp at hall

/-- An entry for a new mapping. -/
theorem held_mapFile (m : VmMap) {address size : Nat} (haligned : page.size ∣ address) (hwhole : page.size ∣ size)
    (hpos : 0 < size) (htop : address + size < word) :
    Held page (m.mapFile (address / page.size) (size / page.size) d).space ⟨address, size, 0, d⟩ where
  proper := ⟨hpos, htop⟩
  aligned := haligned
  whole := hwhole
  mapped k hk := by
    show (if _ then _ else _) = _
    rw [if_pos ⟨Nat.le_add_right _ _, Nat.add_lt_add_left hk _⟩]
    simp

end Held

/-- The entry describes what is mapped, and there is no other one at its address. -/
structure Placed (page : PageSize) (m : VmMap) (entry : Entry) : Prop where
  held : Held page m.space entry
  fresh : ∀ other ∈ m.entries.entries, other.address ≠ entry.address

/-! ## References -/

def VmMap.refs (m : VmMap) : List Nat := m.entries.entries.map Entry.descriptor

def Phase.uses : Phase → List Nat
  | .prepare => []
  | .copyin d | .mapSource d | .createSource d | .mapTarget d | .createTarget d _ | .out d _ => [d]
  | .insertSource d entry | .insertTarget d entry => [entry.descriptor, d]

/-- The references of what is under way. -/
def Activity.uses : Activity → List Nat
  | .idle | .stopped => []
  | .remapping _ _ phase => phase.uses
  | .destroying _ removed => removed.toList.map Entry.descriptor

/-- How many references to a descriptor there are. -/
def Core.held (c : Core) (uses : List Nat) (d : Nat) : Nat := (c.maps.flatMap VmMap.refs).count d + uses.count d

section Counts
variable {c : Core} {uses : List Nat} {i d : Nat} {m m' : VmMap}

theorem held_cons (c : Core) (uses : List Nat) (d x : Nat) :
    c.held (d :: uses) x = c.held uses x + if x = d then 1 else 0 := by
  simp only [Core.held, List.count_cons, beq_iff_eq, eq_comm (a := x)]
  omega

theorem held_setMap (hm : c.maps[i]? = some m) (m' : VmMap) (uses : List Nat) (x : Nat) :
    (c.setMap i m').held uses x + m.refs.count x = c.held uses x + m'.refs.count x := by
  have := Crowd.count_flatMap_set hm m' VmMap.refs x
  simp only [Core.held, Core.setMap]
  omega

/-- The counts are right, for what the maps and `uses` have. -/
def Core.Balanced (c : Core) (uses : List Nat) : Prop := RefCounts.Balanced c.descriptors (c.held uses)

theorem Core.Balanced.setMap (h : c.Balanced uses) (hm : c.maps[i]? = some m) (hrefs : m'.refs = m.refs) :
    (c.setMap i m').Balanced uses := by
  refine RefCounts.Balanced.congr h fun x => ?_
  have := held_setMap hm m' uses x
  rw [hrefs] at this
  omega

theorem Core.Balanced.create (h : c.Balanced uses) (size : Nat) :
    ({ c with descriptors := RefCounts.create c.descriptors size } : Core).Balanced (c.descriptors.length :: uses) :=
  RefCounts.Balanced.create h size (held_cons c uses c.descriptors.length)

theorem Core.Balanced.retain (h : c.Balanced uses) (hd : 0 < c.held uses d) : (c.retain d).Balanced (d :: uses) :=
  RefCounts.Balanced.retain h hd (held_cons c uses d)

theorem Core.Balanced.release (h : c.Balanced (d :: uses)) : (c.release d).Balanced uses :=
  RefCounts.Balanced.release h (held_cons c uses d)

/-- The reference of an entry goes to the map with it. -/
theorem Core.Balanced.insert {entry : Entry} (h : c.Balanced (entry.descriptor :: uses)) (hm : c.maps[i]? = some m)
    (hfresh : ∀ other ∈ m.entries.entries, other.address ≠ entry.address) :
    (c.setMap i (m.insertSharedEntry entry)).Balanced uses := by
  refine RefCounts.Balanced.congr h fun x => ?_
  have hset := held_setMap hm (m.insertSharedEntry entry) uses x
  have hperm : (m.insertSharedEntry entry).refs.Perm (entry.descriptor :: m.refs) :=
    (insertInto_perm hfresh).map Entry.descriptor
  rw [hperm.count_eq, List.count_cons] at hset
  simp only [beq_iff_eq] at hset
  rw [held_cons]
  simp only [eq_comm (a := x)]
  omega

/-- And comes back with it. -/
theorem Core.Balanced.remove {entry : Entry} {rest : List Entry} (h : c.Balanced uses) (hm : c.maps[i]? = some m)
    (hentries : m.entries.entries = entry :: rest) :
    (c.setMap i { m with entries := m.entries.tail }).Balanced (entry.descriptor :: uses) := by
  refine RefCounts.Balanced.congr h fun x => ?_
  have hset := held_setMap hm { m with entries := m.entries.tail } uses x
  have hrefs : m.refs = entry.descriptor :: ({ m with entries := m.entries.tail } : VmMap).refs := by
    simp [VmMap.refs, Tree.tail, hentries]
  rw [hrefs, List.count_cons] at hset
  simp only [beq_iff_eq] at hset
  rw [held_cons]
  simp only [eq_comm (a := x)]
  omega

end Counts

/-! ## One step -/

/-- What is known at each point of a remap, besides the counts. -/
def Phase.Ready (page : PageSize) (c : Core) (r : Remap) : Phase → Prop
  | .prepare | .copyin _ | .mapSource _ =>
    ∀ m, c.maps[r.src]? = some m → setupSource m.entries (r.startMemaddr page) (r.mapSize page) = .fresh
  | .createSource d =>
    ∀ m, c.maps[r.src]? = some m → Placed page m ⟨r.startMemaddr page, r.mapSize page, 0, d⟩
  | .insertSource _ entry => ∀ m, c.maps[r.src]? = some m → Placed page m entry
  | .createTarget d targetAddr =>
    ∀ m, c.maps[r.target]? = some m → Placed page m ⟨targetAddr, r.mapSize page, 0, d⟩
  | .insertTarget _ entry => ∀ m, c.maps[r.target]? = some m → Placed page m entry
  | .mapTarget _ | .out _ _ => True

def Activity.Ready (page : PageSize) (c : Core) : Activity → Prop
  | .remapping r _ phase => r.memoryAddress < word ∧ phase.Ready page c r
  | .idle | .stopped | .destroying _ _ => True

def Core.Described (page : PageSize) (c : Core) : Prop :=
  ∀ m ∈ c.maps, ∀ entry ∈ m.entries.entries, Held page m.space entry

structure Inv (page : PageSize) (c : Core) (activity : Activity) : Prop where
  described : c.Described page
  balanced : c.Balanced activity.uses
  ready : activity.Ready page c

/-- The steps that are careful: nothing that an entry is about is unmapped, and no mapping at
address 0 fails. -/
def careful (page : PageSize) (s : State) (l : Label) : Bool :=
  match s.activity, l with
  | .idle, .deallocate i start size granted =>
    !granted || (s.core.maps[i]?).all fun m =>
      (machVmDeallocate page (some .task) start size granted).2.all fun request =>
        m.entries.entries.all (apart page ((request.pages page).1 / page.size) (request.pages page).2)
  | .remapping r _ (.mapSource _), .event (.mappedFixed false) => r.startMemaddr page ≠ 0
  | _, _ => true

section Remap
variable {page : PageSize} {c c' : Core} {r : Remap} {prot : Prot} {i : Nat} {m : VmMap} {next : Next} {e : Event}

theorem Core.Described.setMap (h : c.Described page) (hm : ∀ entry ∈ m.entries.entries, Held page m.space entry) :
    (c.setMap i m).Described page := by
  intro m' hmem
  rcases List.mem_or_eq_of_mem_set hmem with hmem | rfl
  · exact h m' hmem
  · exact hm

theorem Core.Described.of_getElem? (h : c.Described page) (hm : c.maps[i]? = some m) :
    ∀ entry ∈ m.entries.entries, Held page m.space entry :=
  h m (List.mem_of_getElem? hm)

/-- The map that was set is the one that is there. -/
theorem eq_of_setMap {m' : VmMap} (h : (c.setMap i m).maps[i]? = some m') : m' = m := by
  have hlt : i < (c.maps.set i m).length := (List.getElem?_eq_some_iff.1 h).1
  rw [List.length_set] at hlt
  simpa [Core.setMap, List.getElem?_set_self hlt] using h.symm

/-- The range of a remap is one of whole pages. -/
theorem Remap.range (page : PageSize) (r : Remap) (h : r.memoryAddress < word) :
    page.size ∣ r.startMemaddr page ∧ page.size ∣ r.mapSize page ∧ r.pageCount page = r.mapSize page / page.size := by
  have hrange := pageRange_eq page h r.size
  have hsize : r.mapSize page = Pages.span page.size r.memoryAddress r.size % word := congrArg Prod.snd hrange
  refine ⟨?_, ?_, ?_⟩
  · rw [Remap.startMemaddr, hrange]
    exact Nat.dvd_mul_left _ _
  · rw [hsize]
    exact Pages.dvd_span_mod page.dvd_word _ _
  · rw [Remap.pageCount, hsize]
    exact roundUp_span page _ _

/-- What a mapping of the remap's pages at an aligned address says of them. -/
theorem mappable_range (h : r.memoryAddress < word) {address : Nat}
    (hmappable : mappable page address (r.pageCount page) = true) :
    page.size ∣ address ∧ 0 < r.mapSize page ∧ address + r.mapSize page < word := by
  obtain ⟨-, hwhole, hcount⟩ := r.range page h
  simp only [mappable, Bool.and_eq_true, decide_eq_true_eq] at hmappable
  obtain ⟨⟨haligned, hpos⟩, htop⟩ := hmappable
  rw [hcount] at hpos htop
  rw [Nat.div_mul_cancel hwhole] at htop
  exact ⟨Nat.dvd_of_mod_eq_zero haligned, (Nat.div_pos_iff.1 hpos).1.trans_le (Nat.div_pos_iff.1 hpos).2, htop⟩

/-- Where the source is set up afresh no entry is in the way. -/
theorem apart_of_fresh (h : r.memoryAddress < word) (hm : ∀ entry ∈ m.entries.entries, Held page m.space entry)
    (hsetup : setupSource m.entries (r.startMemaddr page) (r.mapSize page) = .fresh)
    (hmappable : mappable page (r.startMemaddr page) (r.pageCount page) = true) :
    ∀ entry ∈ m.entries.entries, apart page (r.startMemaddr page / page.size) (r.pageCount page) entry = true := by
  obtain ⟨haligned, hpos, htop⟩ := mappable_range h hmappable
  obtain ⟨-, hwhole, hcount⟩ := r.range page h
  intro entry hmem
  have hentry := hm entry hmem
  have hnot := not_overlaps_of_fresh (fun entry hmem => (hm entry hmem).proper) hpos htop hsetup entry hmem
  rw [Entry.overlaps_iff hpos hentry.proper.pos] at hnot
  rw [apart_iff, hcount, ← Nat.add_div_of_dvd_right hentry.aligned, ← Nat.add_div_of_dvd_right haligned]
  by_cases hlow : entry.address < r.startMemaddr page + r.mapSize page
  · exact .inr (.inl (Nat.div_le_div_right (by omega)))
  · exact .inr (.inr (Nat.div_le_div_right (by omega)))

/-- A new mapping of the remap's pages that is apart from the entries can be given one. -/
theorem placed_mapFile (h : r.memoryAddress < word) {address d : Nat}
    (hmappable : mappable page address (r.pageCount page) = true)
    (hm : ∀ entry ∈ m.entries.entries, Held page m.space entry)
    (hapart : ∀ entry ∈ m.entries.entries, apart page (address / page.size) (r.pageCount page) entry = true) :
    Placed page (m.mapFile (address / page.size) (r.pageCount page) d) ⟨address, r.mapSize page, 0, d⟩ := by
  obtain ⟨haligned, hpos, htop⟩ := mappable_range h hmappable
  obtain ⟨-, hwhole, hcount⟩ := r.range page h
  constructor
  · rw [hcount]
    exact held_mapFile m haligned hwhole hpos htop
  · intro other hmem heq
    have hother := hm other hmem
    have hpages := apart_iff.1 (hapart other hmem)
    have hsize := hother.pageCount_pos
    have hsize' : 0 < r.mapSize page / page.size := Nat.div_pos (Nat.le_of_dvd hpos hwhole) page.pos
    rw [heq, hcount] at hpages
    simp only at hpages
    omega

def Next.activity (r : Remap) (prot : Prot) : Next → Activity
  | .phase p => .remapping r prot p
  | .done _ => .idle

/-- The pages of the remap are mapped where no entry is in the way. -/
theorem mapFile_placed (hdesc : c.Described page) {uses : List Nat} (hbal : c.Balanced uses)
    (h : r.memoryAddress < word) (hm : c.maps[i]? = some m) {address d : Nat}
    (hmappable : mappable page address (r.pageCount page) = true)
    (hapart : ∀ entry ∈ m.entries.entries, apart page (address / page.size) (r.pageCount page) entry = true) :
    (c.setMap i (m.mapFile (address / page.size) (r.pageCount page) d)).Described page ∧
    (c.setMap i (m.mapFile (address / page.size) (r.pageCount page) d)).Balanced uses ∧
    ∀ m', (c.setMap i (m.mapFile (address / page.size) (r.pageCount page) d)).maps[i]? = some m' →
      Placed page m' ⟨address, r.mapSize page, 0, d⟩ := by
  have hheld := hdesc.of_getElem? hm
  refine ⟨hdesc.setMap fun entry hmem => (hheld entry hmem).mapFile (hapart entry hmem), hbal.setMap hm rfl,
    fun m' hm' => ?_⟩
  rw [eq_of_setMap hm']
  exact placed_mapFile h hmappable hheld hapart

/-- An entry that describes what is mapped is inserted. -/
theorem insert_placed (hdesc : c.Described page) {uses : List Nat} {entry : Entry}
    (hbal : c.Balanced (entry.descriptor :: uses)) (hm : c.maps[i]? = some m) (hplaced : Placed page m entry) :
    (c.setMap i (m.insertSharedEntry entry)).Described page ∧
    (c.setMap i (m.insertSharedEntry entry)).Balanced uses := by
  refine ⟨hdesc.setMap fun other hmem => ?_, hbal.insert hm hplaced.fresh⟩
  rcases mem_insertInto hmem with rfl | hmem
  · exact hplaced.held
  · exact hdesc.of_getElem? hm other hmem

/-- An entry takes a reference of its own, next to that of the remap. -/
theorem retain_again {d : Nat} (hbal : c.Balanced [d]) : (c.retain d).Balanced [d, d] :=
  hbal.retain (by simp [Core.held])

theorem remapStep_inv {phase : Phase} (h : Inv page c (.remapping r prot phase))
    (hcareful : ∀ d, phase = .mapSource d → e = .mappedFixed false → r.startMemaddr page ≠ 0)
    (hstep : remapStep page r prot c phase e = some (c', next)) : Inv page c' (next.activity r prot) := by
  obtain ⟨hdesc, hbal, hword, hready⟩ := h
  unfold remapStep at hstep
  split at hstep
  -- the file and its descriptor
  · next ok =>
    cases ok with
    | false =>
      cases hstep
      exact ⟨hdesc, hbal, trivial⟩
    | true =>
      rw [if_pos rfl] at hstep
      split at hstep
      · cases hstep
      · cases hstep
        exact ⟨hdesc, hbal.create _, hword, hready⟩
  · next d kr =>
    cases hstep
    by_cases hkr : kr = .success
    · rw [if_pos hkr]
      exact ⟨hdesc, hbal, hword, hready⟩
    · rw [if_neg hkr]
      exact ⟨hdesc, hbal, hword, trivial⟩
  -- the mapping in the source; a failure is seen unless the region starts at 0
  · next d ok =>
    cases ok with
    | false =>
      rw [if_neg (by simpa [eq_comm] using hcareful d rfl rfl)] at hstep
      cases hstep
      exact ⟨hdesc, hbal, hword, trivial⟩
    | true =>
      simp only [if_true] at hstep
      split at hstep
      · next m hm =>
        split at hstep
        · next hmappable =>
          cases hstep
          have hapart := apart_of_fresh hword (hdesc.of_getElem? hm) (hready m hm) hmappable
          obtain ⟨hdesc', hbal', hplaced⟩ := mapFile_placed hdesc hbal hword hm hmappable hapart
          exact ⟨hdesc', hbal', hword, hplaced⟩
        · cases hstep
      · cases hstep
  · next d ok =>
    cases ok with
    | false =>
      cases hstep
      exact ⟨hdesc, hbal, hword, trivial⟩
    | true =>
      cases hstep
      exact ⟨hdesc, retain_again hbal, hword, hready⟩
  · next d entry =>
    obtain ⟨m, hm, heq⟩ := Option.map_eq_some_iff.1 hstep
    cases heq
    obtain ⟨hdesc', hbal'⟩ := insert_placed hdesc hbal hm (hready m hm)
    exact ⟨hdesc', hbal', hword, trivial⟩
  · next d =>
    cases hstep
    exact ⟨hdesc, hbal, hword, trivial⟩
  -- the mapping in the target, at pages that are free
  · next d address =>
    split at hstep
    · next m hm =>
      split at hstep
      · next hkernel =>
        obtain ⟨hmappable, hfree⟩ := Bool.and_eq_true_iff.1 hkernel
        obtain ⟨hdesc', hbal', hplaced⟩ := mapFile_placed hdesc hbal hword hm hmappable
          fun entry hmem => (hdesc.of_getElem? hm entry hmem).apart_of_isFree hfree
        cases hstep
        by_cases hzero : address = 0
        · rw [if_pos hzero]
          exact ⟨hdesc', hbal', hword, trivial⟩
        · rw [if_neg hzero]
          exact ⟨hdesc', hbal', hword, hplaced⟩
      · cases hstep
    · cases hstep
  · next d targetAddr ok =>
    cases ok with
    | false =>
      cases hstep
      exact ⟨hdesc, hbal, hword, trivial⟩
    | true =>
      cases hstep
      exact ⟨hdesc, retain_again hbal, hword, hready⟩
  · next d entry =>
    obtain ⟨m, hm, heq⟩ := Option.map_eq_some_iff.1 hstep
    cases heq
    obtain ⟨hdesc', hbal'⟩ := insert_placed hdesc hbal hm (hready m hm)
    exact ⟨hdesc', hbal', hword, trivial⟩
  · next d answer =>
    cases hstep
    exact ⟨hdesc, Core.Balanced.release hbal, trivial⟩
  · cases hstep

end Remap

section Steps
variable {page : PageSize} {s s' : State} {l : Label} {i : Nat}

theorem beginRemap_inv (h : Inv page s.core .idle) (hs : s.activity = .idle) {r : Remap} {src : VmMap}
    (hm : s.core.maps[r.src]? = some src) (hword : r.memoryAddress < word) (region : Option Prot) :
    Inv page (beginRemap page s r region src).core (beginRemap page s r region src).activity := by
  unfold beginRemap
  cases region with
  | none => exact hs ▸ h
  | some prot =>
    cases hsetup : setupSource src.entries (r.startMemaddr page) (r.mapSize page) with
    | reuse d =>
      obtain ⟨entry, hmem, rfl⟩ := exists_entry_of_reuse hsetup
      have href : entry.descriptor ∈ s.core.maps.flatMap VmMap.refs :=
        List.mem_flatMap.2 ⟨src, List.mem_of_getElem? hm, List.mem_map_of_mem hmem⟩
      have hheld : 0 < s.core.held [] entry.descriptor := Nat.add_pos_left (List.count_pos_iff.2 href) _
      exact ⟨h.described, h.balanced.retain hheld, hword, trivial⟩
    | stub => exact ⟨h.described, h.balanced, trivial⟩
    | fresh =>
      refine ⟨h.described, h.balanced, hword, fun m hm' => ?_⟩
      obtain rfl : src = m := Option.some.inj (hm.symm.trans hm')
      exact hsetup

theorem destroyStep_inv {removed : Option Entry} (h : Inv page s.core (.destroying i removed))
    (hstep : destroyStep s i removed = some s') : Inv page s'.core s'.activity := by
  unfold destroyStep at hstep
  split at hstep
  · cases hstep
    exact ⟨h.described, Core.Balanced.release h.balanced, trivial⟩
  · split at hstep
    · cases hstep
    · next m hm =>
      have hheld := h.described.of_getElem? hm
      split at hstep
      · cases hstep
        exact ⟨h.described.setMap hheld, h.balanced.setMap hm rfl, trivial⟩
      · next entry rest hentries =>
        cases hstep
        exact ⟨h.described.setMap fun other hmem => hheld other (List.mem_of_mem_tail hmem),
          h.balanced.remove hm hentries, trivial⟩

/-- The page is in one of the requests. -/
def requested (page : PageSize) (requests : List Request) (j : Nat) : Bool :=
  requests.any fun q => (q.pages page).1 / page.size ≤ j && j < (q.pages page).1 / page.size + (q.pages page).2

theorem freePages_entries (page : PageSize) (granted : Bool) (requests : List Request) (m : VmMap) :
    (m.freePages page granted requests).entries = m.entries := by
  cases granted with
  | false => rfl
  | true =>
    induction requests generalizing m with
    | nil => rfl
    | cons q requests ih => exact ih _

theorem freePages_space (page : PageSize) (granted : Bool) (requests : List Request) (m : VmMap) (j : Nat) :
    (m.freePages page granted requests).space j =
      if granted && requested page requests j then .free else m.space j := by
  cases granted with
  | false => rfl
  | true =>
    induction requests generalizing m with
    | nil => rfl
    | cons q requests ih =>
      refine (ih (m.unmap ((q.pages page).1 / page.size) (q.pages page).2)).trans ?_
      simp only [requested, List.any_cons, Bool.true_and]
      -- what the others ask for is freed anyway
      cases requests.any fun q => _ with
      | true => simp
      | false => simp [VmMap.unmap]

theorem Held.freePages {m : VmMap} {granted : Bool} {requests : List Request} {entry : Entry}
    (h : Held page m.space entry)
    (hapart : granted = true → ∀ q ∈ requests,
      apart page ((q.pages page).1 / page.size) (q.pages page).2 entry = true) :
    Held page (m.freePages page granted requests).space entry := by
  refine h.congr fun k hk => ?_
  rw [freePages_space, if_neg]
  intro hfreed
  obtain ⟨hgranted, hany⟩ := Bool.and_eq_true_iff.1 hfreed
  obtain ⟨q, hq, hpage⟩ := List.any_eq_true.1 hany
  have := apart_iff.1 (hapart hgranted q hq)
  simp only [Bool.and_eq_true, decide_eq_true_eq] at hpage
  omega

/-- What a deallocation does. -/
theorem step_deallocate {start size : Nat} {granted : Bool}
    (hstep : step page s (.deallocate i start size granted) = some s') :
    s.activity = .idle ∧ s'.activity = .idle ∧ ∃ m, s.core.maps[i]? = some m ∧
      s'.core = s.core.setMap i
        (m.freePages page granted (machVmDeallocate page (some .task) start size granted).2) := by
  unfold step at hstep
  split at hstep
  case h_3 hactivity heq =>
    cases heq
    split at hstep
    · next m hm =>
      split at hstep
      · cases hstep
        exact ⟨hactivity, hactivity, m, hm, rfl⟩
      · cases hstep
    · cases hstep
  all_goals simp_all

theorem careful_deallocate (hactivity : s.activity = .idle) {m : VmMap} (hm : s.core.maps[i]? = some m)
    (start size : Nat) (granted : Bool) :
    careful page s (.deallocate i start size granted) = true ↔
      (granted = true → ∀ q ∈ (machVmDeallocate page (some .task) start size granted).2,
        ∀ entry ∈ m.entries.entries, apart page ((q.pages page).1 / page.size) (q.pages page).2 entry = true) := by
  cases granted <;> simp [careful, hactivity, hm]

theorem deallocate_inv {start size : Nat} {granted : Bool} (h : Inv page s.core s.activity)
    (hcareful : careful page s (.deallocate i start size granted) = true)
    (hstep : step page s (.deallocate i start size granted) = some s') : Inv page s'.core s'.activity := by
  obtain ⟨hidle, hidle', m, hm, hcore⟩ := step_deallocate hstep
  rw [careful_deallocate hidle hm] at hcareful
  rw [hidle] at h
  rw [hcore, hidle']
  refine ⟨h.described.setMap fun entry hmem => ?_, h.balanced.setMap hm ?_, trivial⟩
  · rw [freePages_entries] at hmem
    exact (h.described.of_getElem? hm entry hmem).freePages fun hgranted q hq => hcareful hgranted q hq entry hmem
  · rw [VmMap.refs, freePages_entries]
    rfl

theorem step_inv (h : Inv page s.core s.activity) (hcareful : careful page s l = true)
    (hstep : step page s l = some s') : Inv page s'.core s'.activity := by
  have hwhole := hstep
  unfold step at hstep
  split at hstep
  · next r region hactivity =>
    split at hstep
    · next src target hsrc htarget =>
      split at hstep
      · next hlive =>
        cases hstep
        simp only [Bool.and_eq_true, decide_eq_true_eq] at hlive
        rw [hactivity] at h
        exact beginRemap_inv h hactivity hsrc hlive.1.2 region
      · cases hstep
    · cases hstep
  · next r prot phase e hactivity =>
    rw [hactivity] at h
    have hzero : ∀ d, phase = .mapSource d → e = .mappedFixed false → r.startMemaddr page ≠ 0 := by
      rintro d rfl rfl
      simpa [careful, hactivity] using hcareful
    split at hstep
    · next c phase' heq =>
      cases hstep
      exact remapStep_inv h hzero heq
    · next c answer' heq =>
      cases hstep
      exact remapStep_inv h hzero heq
    · cases hstep
  · exact deallocate_inv h hcareful hwhole
  · next j hactivity =>
    split at hstep
    · split at hstep
      · cases hstep
        rw [hactivity] at h
        exact ⟨h.described, h.balanced, trivial⟩
      · cases hstep
    · cases hstep
  · next j removed hactivity =>
    rw [hactivity] at h
    exact destroyStep_inv h hstep
  · cases hstep

end Steps

/-! ## Whole runs -/

/-- The entries describe the mappings, the counts are those of the entries and of what is
under way, and a descriptor is closed once, when there are none. -/
structure State.Current (page : PageSize) (s : State) : Prop where
  described : ∀ m ∈ s.core.maps, ∀ entry ∈ m.entries.entries, Describes page m.space entry
  counted : ∀ d descriptor, s.core.descriptors[d]? = some descriptor →
    descriptor.refcount = s.core.held s.activity.uses d
  closedOnce : ∀ d descriptor, s.core.descriptors[d]? = some descriptor →
    descriptor.closes = if s.core.held s.activity.uses d = 0 then 1 else 0

section Runs
variable {page : PageSize} {s s' : State}

theorem Inv.current (h : Inv page s.core s.activity) : s.Current page where
  described m hm entry hentry := (h.described m hm entry hentry).describes
  counted d descriptor hd := (h.balanced.count d descriptor hd).1
  closedOnce d descriptor hd := (h.balanced.count d descriptor hd).2

theorem inv_init (h : Init s) : Inv page s.core s.activity := by
  obtain ⟨hentries, hdescriptors, hactivity⟩ := h
  rw [hactivity]
  refine ⟨fun m hm entry hmem => ?_, ?_, trivial⟩
  · rw [hentries m hm] at hmem
    cases hmem
  · rw [Core.Balanced, hdescriptors]
    refine Balanced.nil fun d => ?_
    have hrefs : s.core.maps.flatMap VmMap.refs = [] :=
      List.flatMap_eq_nil_iff.2 fun m hm => by simp [VmMap.refs, hentries m hm]
    simp [Core.held, hrefs, Activity.uses]

theorem inv_of_reach (h : Reach (step page) (fun s l => careful page s l = true) Init s) :
    Inv page s.core s.activity :=
  h.inv (fun s => Inv page s.core s.activity) (fun _ => inv_init) fun _ _ _ hinv hcareful hstep =>
    step_inv hinv hcareful hstep

/-- A page of an entry that was unmapped is not what the entry says. -/
theorem careful_of_described {i start size : Nat} {granted : Bool} (h : Inv page s.core s.activity)
    (hstep : step page s (.deallocate i start size granted) = some s')
    (hdesc : ∀ m ∈ s'.core.maps, ∀ entry ∈ m.entries.entries, Describes page m.space entry) :
    careful page s (.deallocate i start size granted) = true := by
  obtain ⟨hidle, -, m, hm, hcore⟩ := step_deallocate hstep
  rw [careful_deallocate hidle hm]
  intro hgranted q hq entry hmem
  by_contra hnot
  have hheld := h.described.of_getElem? hm entry hmem
  obtain ⟨k, hk, hpage⟩ := hheld.exists_page hnot
  have hlt : i < s.core.maps.length := (List.getElem?_eq_some_iff.1 hm).1
  have hbytes : k * page.size < entry.size := by
    rw [← Nat.div_mul_cancel hheld.whole]
    exact Nat.mul_lt_mul_of_pos_right hk page.pos
  have hstale := hdesc (m.freePages page granted (machVmDeallocate page (some .task) start size granted).2)
    (hcore ▸ List.mem_set hlt _) entry (by rwa [freePages_entries]) (entry.address + k * page.size)
    (Nat.le_add_right _ _) (Nat.add_lt_add_left hbytes _)
  have hfreed : requested page (machVmDeallocate page (some .task) start size granted).2
      (entry.address / page.size + k) = true :=
    List.any_eq_true.2 ⟨q, hq, by simpa using hpage⟩
  rw [backingAt, Nat.add_mul_div_right _ _ page.pos, freePages_space, hgranted, Bool.true_and] at hstale
  rw [hgranted] at hfreed
  rw [if_pos hfreed] at hstale
  cases hstale

/-- If no deallocation unmaps what an entry is about and no mapping at address 0 fails, then
at every point the entries describe the mappings, the counts are right and every descriptor
is closed once. A deallocation that unmaps a page of an entry breaks that. -/
theorem shared_entries_current (h : Reach (step page) (fun s l => careful page s l = true) Init s) :
    s.Current page ∧
    ∀ i start size granted s', step page s (.deallocate i start size granted) = some s' →
      (s'.Current page ↔ careful page s (.deallocate i start size granted) = true) := by
  have hinv := inv_of_reach h
  refine ⟨hinv.current, fun i start size granted s' hstep => ⟨fun hcurrent => ?_, fun hcareful => ?_⟩⟩
  · exact careful_of_described hinv hstep hcurrent.described
  · exact (step_inv hinv hcareful hstep).current

end Runs

/-- Two tasks; the first one has two pages. -/
def twoTasks : State :=
  { core := { maps := [
      { space := fun j => if j = 2 ∨ j = 7 then .other else .free },
      { space := fun _ => .free }] } }

/-- A page of the first task is mapped at 0x5000 in the second one. -/
def remapPage (address : Nat) : List Label :=
  [.remap { src := 0, target := 1, memoryAddress := address, size := 0x1000 } (some { read := true }),
    .event (.prepared true), .event (.copied .success), .event (.mappedFixed true), .event (.allocated true),
    .event .next, .event (.mapped (some 0x5000)), .event (.allocated true), .event .next, .event .next]

/-- A map with `n` entries is destroyed. -/
def destroyMap (i n : Nat) : List Label := .destroy i :: List.replicate (2 * n + 1) (.event .next)

def State.entries (s : State) : List (List Entry) := s.core.maps.map fun m => m.entries.entries

theorem init_twoTasks : Init twoTasks := by
  refine ⟨?_, rfl, rfl⟩
  simp [twoTasks, Tree.empty]

/-- A page is remapped and another one is unmapped. -/
theorem shared_entries_current_remapped :
    ∃ s : State, s.entries = [[⟨0x2000, 0x1000, 0, 0⟩], [⟨0x5000, 0x1000, 0, 0⟩]] ∧ s.Current page4K := by
  have hrun : (exec (step page4K) (careful page4K) twoTasks
      (remapPage 0x2000 ++ [Label.deallocate 0 0x7000 0x1000 true])).map State.entries =
      some [[⟨0x2000, 0x1000, 0, 0⟩], [⟨0x5000, 0x1000, 0, 0⟩]] := by decide
  have hinit : Reach (step page4K) (fun s l => careful page4K s l = true) Init twoTasks := .init init_twoTasks
  obtain ⟨s, hs, hentries⟩ := exists_reach (fun _ _ hl => hl) hinit hrun
  exact ⟨s, hentries, (shared_entries_current hs).1⟩

/-- The page is unmapped in the second task and the entry stays. A second remap to the same
address then has its entry refused, and when both maps are gone its descriptor still has a
reference and is not closed. -/
theorem stale_entry_leaks :
    (∃ s : State, Reach (step page4K) (fun _ _ => True) Init s ∧
      s.entries = [[⟨0x2000, 0x1000, 0, 0⟩], [⟨0x5000, 0x1000, 0, 0⟩]] ∧
      (s.core.maps.map fun m => backingAt page4K m.space 0x5000) = [none, none]) ∧
    (∃ s : State, Reach (step page4K) (fun _ _ => True) Init s ∧ s.activity = .idle ∧ s.entries = [[], []] ∧
      (s.core.descriptors.map fun d => (d.refcount, d.closes)) = [(0, 1), (1, 0)]) := by
  have hinit : Reach (step page4K) (fun _ _ => True) Init twoTasks := .init init_twoTasks
  have hstale : (exec (step page4K) (fun _ _ => true) twoTasks
      (remapPage 0x2000 ++ [Label.deallocate 1 0x5000 0x1000 true])).map
        (fun s => (s.entries, s.core.maps.map fun m => backingAt page4K m.space 0x5000)) =
      some ([[⟨0x2000, 0x1000, 0, 0⟩], [⟨0x5000, 0x1000, 0, 0⟩]], [none, none]) := by decide
  have hleak : (exec (step page4K) (fun _ _ => true) twoTasks
      (remapPage 0x2000 ++ [Label.deallocate 1 0x5000 0x1000 true] ++ remapPage 0x7000 ++ destroyMap 0 2 ++
        destroyMap 1 1)).map
        (fun s => (s.activity, s.entries, s.core.descriptors.map fun d => (d.refcount, d.closes))) =
      some (.idle, [[], []], [(0, 1), (1, 0)]) := by decide
  constructor
  · obtain ⟨s, hs, hv⟩ := exists_reach (fun _ _ _ => trivial) hinit hstale
    simp only [Prod.mk.injEq] at hv
    exact ⟨s, hs, hv⟩
  · obtain ⟨s, hs, hv⟩ := exists_reach (fun _ _ _ => trivial) hinit hleak
    simp only [Prod.mk.injEq] at hv
    exact ⟨s, hs, hv⟩

end DarlingServer.SharedRemaps
