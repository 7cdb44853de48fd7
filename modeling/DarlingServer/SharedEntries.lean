import DarlingServer.Lib.Ordered
import DarlingServer.PageRanges
/-!
# The shared entries of a map

A map keeps the regions that it shares with other maps in a tree that is ordered by address.
Before a region is shared the tree is searched for entries that are in the way: one that
starts at the same place and is long enough is used again, any other one is too much for
the server, which then stops.

The search compares the ends of the ranges as if they were part of them, so it also finds
entries that only touch the range (`findSharedEntriesLocked_eq`). It is exact just if none of
those it returns does.
-/

namespace DarlingServer.SharedEntries

open PageRanges Ordered

structure Entry where
  address : Nat
  size : Nat
  pageOffset : Nat
  descriptor : Nat
  deriving DecidableEq

abbrev Entries := Tree Entry.address

/-- The entry is skipped. -/
def Entry.skipped (address size : Nat) (entry : Entry) : Bool :=
  Pages.add word entry.address entry.size < address || entry.address > Pages.add word address size

/-- The loop, with the entries found so far. -/
def findLoop (address size entryCount : Nat) (outEntries : List Entry) : List Entry → List Entry
  | [] => outEntries
  | entry :: rest =>
    if entry.skipped address size then findLoop address size entryCount outEntries rest
    else if (outEntries ++ [entry]).length = entryCount then outEntries ++ [entry]
    else findLoop address size entryCount (outEntries ++ [entry]) rest

/-- `dtape_map_find_shared_entries_locked`. -/
def findSharedEntriesLocked (entries : Entries) (address size entryCount : Nat) : List Entry :=
  if entryCount = 0 then [] else findLoop address size entryCount [] entries.entries

/-- How the shared remap goes on in the source. -/
inductive Setup where
  | reuse (descriptor : Nat)
  | stub
  | fresh
  deriving DecidableEq

/-- The search in `mach_vm_remap_external_shared`, with room for eight entries. -/
def setupSource (entries : Entries) (startMemaddr mapSize : Nat) : Setup :=
  match findSharedEntriesLocked entries startMemaddr mapSize 8 with
  | [] => .fresh
  | [entry] => if entry.address = startMemaddr ∧ entry.size ≥ mapSize then .reuse entry.descriptor else .stub
  | _ :: _ :: _ => .stub

/-! ## What is found -/

theorem findLoop_eq (address size : Nat) {entryCount : Nat} (l : List Entry) {outEntries : List Entry}
    (h : outEntries.length < entryCount) :
    findLoop address size entryCount outEntries l =
      outEntries ++ (l.filter fun entry => !entry.skipped address size).take (entryCount - outEntries.length) := by
  induction l generalizing outEntries with
  | nil => simp [findLoop]
  | cons entry rest ih =>
    rw [findLoop]
    by_cases hskip : entry.skipped address size = true
    · rw [if_pos hskip, ih h, List.filter_cons_of_neg (by simp [hskip])]
    · have hlength : (outEntries ++ [entry]).length = outEntries.length + 1 := by simp
      obtain ⟨room, hroom⟩ : ∃ room, entryCount - outEntries.length = room + 1 :=
        ⟨entryCount - outEntries.length - 1, by omega⟩
      rw [if_neg hskip, List.filter_cons_of_pos (by simpa using hskip), hroom, List.take_succ_cons]
      by_cases hfull : (outEntries ++ [entry]).length = entryCount
      · obtain rfl : room = 0 := by omega
        rw [if_pos hfull, List.take_zero]
      · rw [if_neg hfull, ih (by omega), List.append_assoc,
          show entryCount - (outEntries ++ [entry]).length = room by omega]
        rfl

/-- The first entries of those that are not skipped. -/
theorem findSharedEntriesLocked_eq (entries : Entries) (address size entryCount : Nat) :
    findSharedEntriesLocked entries address size entryCount =
      (entries.entries.filter fun entry => !entry.skipped address size).take entryCount := by
  unfold findSharedEntriesLocked
  by_cases hzero : entryCount = 0
  · simp [hzero]
  · rw [if_neg hzero, findLoop_eq address size _ (Nat.pos_of_ne_zero hzero)]
    simp

/-- The entry and the range have a byte in common. -/
def Entry.Overlaps (address size : Nat) (entry : Entry) : Prop :=
  ∃ a, (entry.address ≤ a ∧ a < entry.address + entry.size) ∧ address ≤ a ∧ a < address + size

/-- One of them ends where the other one starts. -/
def Entry.Touches (address size : Nat) (entry : Entry) : Prop :=
  entry.address + entry.size = address ∨ entry.address = address + size

theorem Entry.overlaps_iff {address size : Nat} {entry : Entry} (hsize : 0 < size) (hentry : 0 < entry.size) :
    entry.Overlaps address size ↔ entry.address < address + size ∧ address < entry.address + entry.size := by
  constructor
  · rintro ⟨a, ha, ha'⟩
    omega
  · intro h
    exact ⟨max entry.address address, by omega, by omega⟩

/-- The entry has a size and does not wrap. -/
structure Entry.Proper (entry : Entry) : Prop where
  pos : 0 < entry.size
  top : entry.address + entry.size < word

/-- What is not skipped overlaps the range or touches it. -/
theorem Entry.not_skipped_iff {address size : Nat} {entry : Entry} (h : entry.Proper) (hsize : 0 < size)
    (htop : address + size < word) :
    entry.skipped address size = false ↔ entry.Overlaps address size ∨ entry.Touches address size := by
  have hpos := h.pos
  rw [Entry.overlaps_iff hsize hpos, Entry.Touches, Entry.skipped, Pages.add, Pages.add, Nat.mod_eq_of_lt h.top,
    Nat.mod_eq_of_lt htop]
  simp only [Bool.or_eq_false_iff, decide_eq_false_iff_not]
  omega

theorem Entry.not_touches {address size : Nat} {entry : Entry} (h : entry.Overlaps address size) :
    ¬ entry.Touches address size := by
  obtain ⟨a, ha, ha'⟩ := h
  rintro (htouch | htouch) <;> omega

/-- If the first elements all pass, they are the first of those that pass. -/
theorem take_filter {α : Type*} (q : α → Bool) (n : Nat) (l : List α) (h : ∀ a ∈ l.take n, q a = true) :
    (l.filter q).take n = l.take n := by
  induction l generalizing n with
  | nil => rfl
  | cons a l ih =>
    cases n with
    | zero => rfl
    | succ n =>
      rw [List.take_succ_cons] at h
      rw [List.filter_cons_of_pos (h a List.mem_cons_self), List.take_succ_cons, List.take_succ_cons,
        ih n fun b hb => h b (List.mem_cons_of_mem a hb)]

open Classical in
/-- What the search is for: the first entries of those that overlap the range. -/
noncomputable def overlapping (entries : Entries) (address size entryCount : Nat) : List Entry :=
  (entries.entries.filter fun entry => entry.Overlaps address size).take entryCount

section Exact
variable {entries : Entries} {address size : Nat}

theorem find_eq_overlapping_iff (h : ∀ entry ∈ entries.entries, entry.Proper) (hsize : 0 < size)
    (htop : address + size < word) (entryCount : Nat) :
    findSharedEntriesLocked entries address size entryCount = overlapping entries address size entryCount ↔
      ∀ entry ∈ findSharedEntriesLocked entries address size entryCount, ¬ entry.Touches address size := by
  classical
  constructor
  · intro heq entry hmem
    rw [heq] at hmem
    have := (List.mem_filter.1 (List.mem_of_mem_take hmem)).2
    exact Entry.not_touches (by simpa using this)
  · intro hnone
    rw [findSharedEntriesLocked_eq] at hnone ⊢
    -- what overlaps is not skipped, so the one filter is a part of the other
    have hfilter : (entries.entries.filter fun entry => decide (entry.Overlaps address size)) =
        (entries.entries.filter fun entry => !entry.skipped address size).filter
          fun entry => decide (entry.Overlaps address size) := by
      rw [List.filter_filter]
      refine List.filter_congr fun entry hmem => ?_
      have := Entry.not_skipped_iff (h entry hmem) hsize htop
      by_cases hover : entry.Overlaps address size
      · simp [hover, this.2 (.inl hover)]
      · simp [hover]
    rw [overlapping, hfilter]
    refine (take_filter _ _ _ fun entry hmem => ?_).symm
    obtain ⟨hentry, hskip⟩ := List.mem_filter.1 (List.mem_of_mem_take hmem)
    have := (Entry.not_skipped_iff (h entry hentry) hsize htop).1 (by simpa using hskip)
    simpa using this.resolve_right (hnone entry hmem)

/-- With nothing in the way a region is set up afresh if it touches no entry either; if it
touches one the server stops. -/
theorem setupSource_apart (h : ∀ entry ∈ entries.entries, entry.Proper) (hsize : 0 < size)
    (hapart : ∀ entry ∈ entries.entries, ¬ entry.Overlaps address size) :
    setupSource entries address size =
      if findSharedEntriesLocked entries address size 8 = [] then .fresh else .stub := by
  unfold setupSource
  have hfound : ∀ entry ∈ findSharedEntriesLocked entries address size 8, entry.address ≠ address := by
    intro entry hmem
    rw [findSharedEntriesLocked_eq] at hmem
    have hentry := (List.mem_filter.1 (List.mem_of_mem_take hmem)).1
    have hnot := hapart entry hentry
    have hpos := (h entry hentry).pos
    rw [Entry.overlaps_iff hsize hpos] at hnot
    omega
  split
  · next heq => simp [heq]
  · next entry heq =>
    have := hfound entry (by simp [heq])
    simp [heq, this]
  · next heq => simp [heq]

theorem find_eq_nil_iff (h : ∀ entry ∈ entries.entries, entry.Proper) (hsize : 0 < size)
    (htop : address + size < word) {entryCount : Nat} (hcount : 0 < entryCount) :
    findSharedEntriesLocked entries address size entryCount = [] ↔
      ∀ entry ∈ entries.entries, ¬ entry.Overlaps address size ∧ ¬ entry.Touches address size := by
  rw [findSharedEntriesLocked_eq, List.take_eq_nil_iff, or_iff_right (Nat.ne_of_gt hcount), List.filter_eq_nil_iff]
  refine forall₂_congr fun entry hmem => ?_
  have := Entry.not_skipped_iff (h entry hmem) hsize htop
  rw [← not_or, ← this]
  simp

/-- A region that is set up afresh has no byte in common with an entry. -/
theorem not_overlaps_of_fresh (h : ∀ entry ∈ entries.entries, entry.Proper) (hsize : 0 < size)
    (htop : address + size < word) (hsetup : setupSource entries address size = .fresh) :
    ∀ entry ∈ entries.entries, ¬ entry.Overlaps address size := by
  have hnil : findSharedEntriesLocked entries address size 8 = [] := by
    unfold setupSource at hsetup
    split at hsetup
    · assumption
    · split at hsetup <;> cases hsetup
    · cases hsetup
  exact fun entry hmem => ((find_eq_nil_iff h hsize htop (by decide)).1 hnil entry hmem).1

/-- A descriptor that is used again is that of an entry. -/
theorem exists_entry_of_reuse {descriptor : Nat} (hsetup : setupSource entries address size = .reuse descriptor) :
    ∃ entry ∈ entries.entries, entry.descriptor = descriptor := by
  unfold setupSource at hsetup
  split at hsetup
  · cases hsetup
  · next entry heq =>
    have hmem : entry ∈ findSharedEntriesLocked entries address size 8 := by simp [heq]
    rw [findSharedEntriesLocked_eq] at hmem
    split at hsetup
    · cases hsetup
      exact ⟨entry, (List.mem_filter.1 (List.mem_of_mem_take hmem)).1, rfl⟩
    · cases hsetup
  · cases hsetup

end Exact

/-- One page at 0x1000. -/
def onePage : Entries := Tree.empty.insert ⟨0x1000, 0x1000, 0, 0⟩

theorem onePage_proper : ∀ entry ∈ onePage.entries, entry.Proper := by
  intro entry hmem
  obtain rfl := List.mem_singleton.1 hmem
  exact ⟨by decide, by decide⟩

end DarlingServer.SharedEntries
