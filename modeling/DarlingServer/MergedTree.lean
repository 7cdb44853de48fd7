import DarlingServer.TreeMerge
/-!
# The merged tree

What `copyAndSetAttributes` leaves for the two roots.

* Entries without a counterpart stay, and so does what is newer, of another type, or
  below something in the way.
* What is missing or older becomes like its counterpart.
* A regular file or link that is as old as its counterpart gets the counterpart's
  attributes and keeps its content: "the lower file and the newer files should be the same".
* The second run changes nothing.
-/

namespace DarlingServer.TreeMerge

open FileTree

variable {S : Tree} {D D' : Files} {p q : Path}

/-! ## Merging an entry twice -/

theorem mergeEntry_fileType (x y : Entry) : (mergeEntry x y).fileType = y.fileType := by
  unfold mergeEntry
  split
  · rfl
  next htype =>
    split
    · rfl
    · split
      · exact Body.fileType_chmod _ _
      · exact not_not.1 htype

theorem mergeEntry_isDir (x y : Entry) : (mergeEntry x y).isDir = y.isDir := by
  simp only [Entry.isDir, mergeEntry_fileType]

theorem setAttributes_setAttributes (y x : Entry) : setAttributes (setAttributes y x) x = setAttributes y x := by
  simp [setAttributes]

theorem setAttributes_self (x : Entry) : setAttributes x x = x := by
  simp [setAttributes]

theorem mergeEntry_self (x : Entry) : mergeEntry x x = x := by
  simp [mergeEntry, setAttributes_self]

/-- Merging an entry once more changes nothing. -/
theorem mergeEntry_mergeEntry (x y : Entry) : mergeEntry x (mergeEntry x y) = mergeEntry x y := by
  by_cases htype : x.fileType = y.fileType
  · rcases compareTimespec_cases x.mtime y.mtime with htime | htime | htime
    · have hmerge : mergeEntry x y = y := by simp [mergeEntry, htime]
      rw [hmerge, hmerge]
    · have hmerge : mergeEntry x y = setAttributes y x := by simp [mergeEntry, htype, htime]
      have htype' : x.fileType = (setAttributes y x).fileType := htype.trans (Body.fileType_chmod _ _).symm
      have htime' : compareTimespec x.mtime (setAttributes y x).mtime = 0 := compareTimespec_self _
      rw [hmerge]
      simp [mergeEntry, htype', htime', setAttributes_setAttributes]
    · have hmerge : mergeEntry x y = x := by simp [mergeEntry, htype, htime]
      rw [hmerge, mergeEntry_self]
  · have hmerge : mergeEntry x y = y := by simp [mergeEntry, htype]
    rw [hmerge, hmerge]

/-- What has been merged is not older than its counterpart. -/
theorem mergeEntry_not_newer {x y : Entry} (htype : x.fileType = y.fileType) :
    compareTimespec x.mtime (mergeEntry x y).mtime ≠ 1 := by
  rcases compareTimespec_cases x.mtime y.mtime with htime | htime | htime
  · simp [mergeEntry, htime]
  · have hmerge : mergeEntry x y = setAttributes y x := by simp [mergeEntry, htype, htime]
    have htime' : compareTimespec x.mtime (setAttributes y x).mtime = 0 := compareTimespec_self _
    simp [hmerge, htime']
  · have hmerge : mergeEntry x y = x := by simp [mergeEntry, htype, htime]
    simp [hmerge]

/-! ## Merging a tree twice -/

section
variable {D'' : Files}

/-- Directories stay directories, and what is in the way stays there. -/
theorem Merged.isDir (h : Merged S D p (D' p)) (hdir : D.isDir p = true) : D'.isDir p = true := by
  unfold Files.isDir at hdir ⊢
  generalize D' p = e at h
  cases h with
  | kept => exact hdir
  | blocked hd => simp [hd] at hdir
  | made _ hd => simp [hd] at hdir
  | directory _ hd _ hy => simpa using hy
  | entry _ hd => simpa [mergeEntry_isDir, hd] using hdir

theorem Merged.isLeaf (h : Merged S D p (D' p)) (hleaf : D.isLeaf p = true) : D'.isLeaf p = true := by
  unfold Files.isLeaf at hleaf ⊢
  generalize D' p = e at h
  cases h with
  | kept => exact hleaf
  | blocked hd => simp [hd] at hleaf
  | made _ hd => simp [hd] at hleaf
  | directory _ hd _ hy => simp [hd, hy] at hleaf
  | entry _ hd => simpa [mergeEntry_isDir, hd] using hleaf

theorem blocked_merged (h : ∀ q, Merged S D q (D' q)) (hb : D.Blocked p) : D'.Blocked p := by
  obtain ⟨q, hq, hne, hleaf⟩ := hb
  exact ⟨q, hq, hne, (h q).isLeaf hleaf⟩

theorem blocked_child {n : String} (hb : D.Blocked p ∨ D.isLeaf p = true) : D.Blocked (p ++ [n]) := by
  rcases hb with ⟨q, hq, -, hleaf⟩ | hleaf
  · refine ⟨q, hq.trans (List.prefix_append _ _), ?_, hleaf⟩
    rintro rfl
    exact not_below_child _ _ hq
  · refine ⟨p, List.prefix_append _ _, fun he => ?_, hleaf⟩
    exact not_below_child p n (he ▸ List.prefix_rfl)

/-- Entries stay in directories. -/
theorem rooted_merged (h : ∀ q, Merged S D q (D' q)) (hrooted : D.Rooted) : D'.Rooted := by
  intro p n hsome
  cases hd : D (p ++ [n]) with
  | some y => exact (h p).isDir (hrooted p n (by simp [hd]))
  | none =>
    have hchild := h (p ++ [n])
    generalize D' (p ++ [n]) = e at hchild hsome
    cases hchild with
    | kept => exact absurd hd hsome
    | blocked => exact absurd rfl hsome
    | directory _ hd' | entry _ hd' => simp [hd] at hd'
    | made hs _ hb =>
      -- it was made, in a directory of the source; the destination has one, or gets it
      have hsdir : S.entry.isDir p = true := S.rooted p n (by simp [hs])
      have hself := h p
      unfold Files.isDir at hsdir ⊢
      generalize D' p = e at hself
      cases hself with
      | kept hs' => simp [hs'] at hsdir
      | blocked _ hb' => exact absurd (blocked_child (.inl hb')) hb
      | made hs' => simpa [hs'] using hsdir
      | directory _ _ _ hy => simpa using hy
      | @entry x y _ hd' =>
        cases hy : y.isDir with
        | true => simpa [mergeEntry_isDir] using hy
        | false => exact absurd (blocked_child (.inr (by simp [Files.isLeaf, hd', hy]))) hb

theorem Merged.of_none (h : Merged S D p none) : S.entry p = none ∨ D.Blocked p := by
  generalize he : (none : Option Entry) = e at h
  cases h with
  | kept hs => exact .inl (hs.trans he)
  | blocked _ hb => exact .inr hb
  | made | directory | entry => cases he

/-- What is there beside an entry of the source. -/
theorem Merged.of_some {x e : Entry} (h : Merged S D p (some e)) (hs : S.entry p = some x) :
    e = x ∨ (x.isDir = true ∧ e.isDir = true) ∨ ∃ y, e = mergeEntry x y := by
  generalize he : some e = e' at h
  cases h with
  | kept hs' => simp [hs] at hs'
  | blocked => cases he
  | made hs' =>
    cases he
    exact .inl (Option.some.inj (hs'.symm.trans hs))
  | directory hs' _ hx hy =>
    cases he
    cases hs.symm.trans hs'
    exact .inr (.inl ⟨hx, hy⟩)
  | entry hs' =>
    cases he
    cases hs.symm.trans hs'
    exact .inr (.inr ⟨_, rfl⟩)

/-- In a tree that has been merged nothing is made. -/
theorem not_creates_merged (h : ∀ q, Merged S D q (D' q)) (hrooted : D.Rooted) (hdir : D'.isDir p = true)
    (n : String) : ¬ Creates S D' (p ++ [n]) := by
  rintro ⟨x, hs, hcreates⟩
  have hchild := h (p ++ [n])
  have hrooted' := rooted_merged h hrooted
  have hclear := not_blocked_child (n := n) hdir (hrooted'.not_blocked hdir)
  rcases hcreates with hnone | ⟨y, hy, hx, htype, htime⟩
  · rcases (hnone ▸ hchild).of_none with hs' | hb
    · simp [hs] at hs'
    · exact hclear (blocked_merged h hb)
  · rcases (hy ▸ hchild).of_some hs with rfl | ⟨hx', -⟩ | ⟨z, rfl⟩
    · simp at htime
    · simp [hx] at hx'
    · rw [mergeEntry_fileType] at htype
      exact mergeEntry_not_newer htype htime

/-- A second merge leaves the tree of the first. -/
theorem merged_again (h : ∀ q, Merged S D q (D' q)) (hrooted : D.Rooted) (h' : ∀ q, Merged S D' q (D'' q)) :
    D'' = D' := by
  funext p
  have hsecond := h' p
  have hfirst := h p
  generalize D'' p = e at hsecond
  cases hsecond with
  | kept => rfl
  | blocked hd => exact hd.symm
  | made hs hd hb =>
    rcases (hd ▸ hfirst).of_none with hs' | hb'
    · simp [hs] at hs'
    · exact absurd (blocked_merged h hb') hb
  | @directory x y t hs hd hx hy ht =>
    rw [ht (not_creates_merged h hrooted (by simp [Files.isDir, hd, hy])), hd]
    rfl
  | @entry x y hs hd hxy =>
    rw [hd]
    rcases (hd ▸ hfirst).of_some hs with rfl | ⟨hx, hy⟩ | ⟨z, rfl⟩
    · rw [mergeEntry_self]
    · simp [hx, hy] at hxy
    · rw [mergeEntry_mergeEntry]

end

/-! ## Safety -/

/-- What the merge leaves of a destination `D`. -/
structure Safe (S : Tree) (D D' : Files) : Prop where
  /-- What has no counterpart stays. -/
  unmatched : ∀ p, S.entry p = none → D' p = D p
  /-- So does what has one of another type or an older one. -/
  kept : ∀ p x y, S.entry p = some x → D p = some y →
    x.fileType ≠ y.fileType ∨ y.isDir = false ∧ x.mtime.Before y.mtime → D' p = D p
  /-- And everything below something else than a directory, or of another type. -/
  untouched : ∀ p y, D p = some y → y.isDir = false ∨ (∃ x, S.entry p = some x ∧ x.fileType ≠ y.fileType) →
    ∀ q, p <+: q → q ≠ p → D' q = D q
  /-- What is missing or older is made like its counterpart, a new directory included. -/
  copied : ∀ p x, S.entry p = some x →
    D p = none ∧ ¬ D.Blocked p ∨
      (∃ y, D p = some y ∧ y.isDir = false ∧ x.fileType = y.fileType ∧ y.mtime.Before x.mtime) → D' p = some x
  /-- What is as new gets times, owner and permissions, and keeps its content. -/
  updated : ∀ p x y, S.entry p = some x → D p = some y → y.isDir = false → x.fileType = y.fileType →
    x.mtime = y.mtime → D' p = some (setAttributes y x) ∧ (setAttributes y x).body.mode = x.body.mode

section
variable {x y : Entry}

theorem Merged.eq_unmatched (h : Merged S D p (D' p)) (hs : S.entry p = none) : D' p = D p := by
  generalize D' p = e at h ⊢
  cases h with
  | kept => rfl
  | blocked hd => exact hd.symm
  | made hs' | directory hs' | entry hs' => simp [hs] at hs'

theorem Merged.eq_made (h : Merged S D p (D' p)) (hs : S.entry p = some x) (hd : D p = none) (hb : ¬ D.Blocked p) :
    D' p = some x := by
  generalize D' p = e at h ⊢
  cases h with
  | kept hs' => simp [hs] at hs'
  | blocked _ hb' => exact absurd hb' hb
  | made hs' => exact hs'.symm.trans hs
  | directory _ hd' | entry _ hd' => simp [hd] at hd'

theorem Merged.eq_blocked (h : Merged S D p (D' p)) (hd : D p = none) (hb : D.Blocked p) : D' p = none := by
  generalize D' p = e at h ⊢
  cases h with
  | kept => exact hd
  | blocked => rfl
  | made _ _ hb' => exact absurd hb hb'
  | directory _ hd' | entry _ hd' => simp [hd] at hd'

theorem Merged.eq_entry (h : Merged S D p (D' p)) (hs : S.entry p = some x) (hd : D p = some y)
    (hxy : x.isDir = false ∨ y.isDir = false) : D' p = some (mergeEntry x y) := by
  generalize D' p = e at h ⊢
  cases h with
  | kept hs' => simp [hs] at hs'
  | blocked hd' | made _ hd' => simp [hd] at hd'
  | directory hs' hd' hx hy =>
    cases hs.symm.trans hs'
    cases hd.symm.trans hd'
    simp [hx, hy] at hxy
  | entry hs' hd' =>
    cases hs.symm.trans hs'
    cases hd.symm.trans hd'
    rfl

/-- Two entries of different types are not both directories. -/
theorem not_both_dirs (h : x.fileType ≠ y.fileType) : x.isDir = false ∨ y.isDir = false := by
  by_contra hboth
  simp only [Entry.isDir, decide_eq_false_iff_not, not_or, not_not] at hboth
  exact h (hboth.1.trans hboth.2.symm)

theorem merged_untouched (h : ∀ q, Merged S D q (D' q)) (hrooted : D.Rooted) (hd : D p = some y)
    (hwhy : y.isDir = false ∨ ∃ x, S.entry p = some x ∧ x.fileType ≠ y.fileType) (hq : p <+: q) (hne : q ≠ p) :
    D' q = D q := by
  by_cases hs : S.entry q = none
  · exact (h q).eq_unmatched hs
  · -- the source has a directory at `p`, and the destination has none
    have hsdir : S.entry.isDir p = true := by
      by_contra hnot
      exact hs (S.none_below (by simpa using hnot) hq hne)
    have hy : y.isDir = false := by
      rcases hwhy with hy | ⟨x, hsx, htype⟩
      · exact hy
      · have hx : x.isDir = true := by simpa [Files.isDir, hsx] using hsdir
        exact (not_both_dirs htype).resolve_left (by simp [hx])
    have hnone : D q = none := Files.none_below (fun r n _ => hrooted r n) (by simp [Files.isDir, hd, hy]) hq hne
    rw [hnone]
    exact (h q).eq_blocked hnone ⟨p, hq, Ne.symm hne, by simp [Files.isLeaf, hd, hy]⟩

theorem Safe.of_merged (h : ∀ q, Merged S D q (D' q)) (hrooted : D.Rooted) : Safe S D D' where
  unmatched p hs := (h p).eq_unmatched hs
  kept p x y hs hd hwhy := by
    rcases hwhy with htype | ⟨hy, htime⟩
    · rw [(h p).eq_entry hs hd (not_both_dirs htype), hd, mergeEntry, if_pos htype]
    · rw [(h p).eq_entry hs hd (.inr hy), hd]
      simp [mergeEntry, compareTimespec_before.2 htime]
  untouched p y hd hwhy q hq hne := merged_untouched h hrooted hd hwhy hq hne
  copied p x hs hwhy := by
    rcases hwhy with ⟨hd, hb⟩ | ⟨y, hd, hy, htype, htime⟩
    · exact (h p).eq_made hs hd hb
    · rw [(h p).eq_entry hs hd (.inr hy)]
      simp [mergeEntry, htype, compareTimespec_after.2 htime]
  updated p x y hs hd hy htype htime := by
    refine ⟨?_, Body.mode_chmod htype.symm⟩
    rw [(h p).eq_entry hs hd (.inr hy)]
    simp [mergeEntry, htype, htime]

end

/-! ## The two roots -/

/-- Entries in directories: nothing is in the way of the root. -/
theorem ready_root (hrooted : D.Rooted) : Ready D [] where
  parent hp := absurd rfl hp
  clear := by
    rintro ⟨q, hq, hne, -⟩
    exact hne (List.prefix_nil.1 hq)
  rooted q n _ := hrooted q n

/-- A call for the roots. -/
theorem merges (S : Tree) (fresh : Nat → Stamp) {fuel : Nat} (hfuel : S.depth < fuel) {w : World}
    (hfrom : w.fromPath = []) (hto : w.toPath = []) (hrooted : w.files.Rooted) :
    ∃ w', copyAndSetAttributes S fresh fuel w = .ok w' ∧ w'.fromPath = [] ∧ w'.toPath = [] ∧
      ∀ q, Merged S w.files q (w'.files q) := by
  obtain ⟨w', hw', hfrom', hto', hcopied⟩ := copyAndSetAttributes_ends S fresh fuel [] S.root
    (by simpa using hfuel) w hfrom hto (ready_root hrooted)
  exact ⟨w', hw', hfrom', hto', fun q => hcopied.below q List.nil_prefix⟩

/-- The merge comes to its end, is safe, and changes nothing the second time. -/
theorem merge_safe (S : Tree) (fresh : Nat → Stamp) {D : Files} (hrooted : D.Rooted) {fuel : Nat}
    (hfuel : S.depth < fuel) (tick : Nat) :
    ∃ w', copyAndSetAttributes S fresh fuel ⟨D, [], [], tick⟩ = .ok w' ∧ w'.fromPath = [] ∧ w'.toPath = [] ∧
      Safe S D w'.files ∧ ∀ (fresh' : Nat → Stamp) (fuel' : Nat), S.depth < fuel' →
        ∃ w'', copyAndSetAttributes S fresh' fuel' w' = .ok w'' ∧ w''.files = w'.files := by
  obtain ⟨w', hw', hfrom', hto', hmerged⟩ := merges S fresh hfuel (w := ⟨D, [], [], tick⟩) rfl rfl hrooted
  refine ⟨w', hw', hfrom', hto', .of_merged hmerged hrooted, fun fresh' fuel' hfuel' => ?_⟩
  obtain ⟨w'', hw'', -, -, hmerged'⟩ := merges S fresh' hfuel' hfrom' hto' (rooted_merged hmerged hrooted)
  exact ⟨w'', hw'', merged_again hmerged hrooted hmerged'⟩

/-! ## Two files -/

/-- A directory with the one file `a`. -/
def oneFile (e : Entry) : Files := fun p =>
  if p = [] then some ⟨.directory 0o755, ⟨⟨0, 0⟩, ⟨0, 0⟩, 0, 0⟩⟩ else if p = ["a"] then some e else none

theorem oneFile_child (e : Entry) (p : Path) (n : String) : oneFile e (p ++ [n]) ≠ none ↔ p = [] ∧ n = "a" := by
  cases p with
  | nil => simp [oneFile]
  | cons m p => cases p <;> simp [oneFile]

theorem oneFile_rooted (e : Entry) : (oneFile e).Rooted := fun p n h => by
  rw [((oneFile_child e p n).1 h).1]
  rfl

def oneFileTree (e : Entry) : Tree where
  entry := oneFile e
  readdir p := if p = [] then [".", "..", "a"] else []
  depth := 1
  root := nofun
  rooted := oneFile_rooted e
  nodup p := by split <;> decide
  mem_readdir p n := by
    rw [oneFile_child]
    by_cases hp : p = []
    · simp only [hp, if_true, List.mem_cons, List.not_mem_nil, or_false, true_and]
      constructor
      · rintro rfl
        decide
      · rintro ⟨hn, hdot, hdots⟩
        exact (hn.resolve_left hdot).resolve_left hdots
    · simp [hp]
  length_le p h := by
    simp only [oneFile] at h
    split at h
    next hp => simp [hp]
    · split at h
      next hp => simp [hp]
      · exact absurd rfl h

/-- A file of one byte, and the second it was modified in. -/
def file (byte : UInt8) (sec : Int) (mode uid : Nat) : Entry := ⟨.regular mode [byte], ⟨⟨0, 0⟩, ⟨sec, 0⟩, uid, 0⟩⟩

def someStamp : Stamp := ⟨⟨⟨9, 0⟩, ⟨9, 0⟩, 1, 1⟩, 0o600⟩

/-- A newer file replaces the one that is there. -/
theorem merge_safe_newer : ∃ w', copyAndSetAttributes (oneFileTree (file 1 5 0o644 0)) (fun _ => someStamp) 2
    ⟨oneFile (file 2 4 0o600 7), [], [], 0⟩ = .ok w' ∧ w'.files ["a"] = some (file 1 5 0o644 0) := by
  have hfuel : (oneFileTree (file 1 5 0o644 0)).depth < 2 := by decide
  obtain ⟨w', hw', -, -, hsafe, -⟩ := merge_safe (oneFileTree (file 1 5 0o644 0)) (fun _ => someStamp)
    (oneFile_rooted (file 2 4 0o600 7)) hfuel 0
  exact ⟨w', hw', hsafe.copied ["a"] _ rfl (.inr ⟨_, rfl, rfl, rfl, .inl (by decide)⟩)⟩

/-- A file with the same modification time gets owner and permissions, but not the content. -/
theorem merge_keeps_content : ∃ w', copyAndSetAttributes (oneFileTree (file 1 5 0o644 0)) (fun _ => someStamp) 2
    ⟨oneFile (file 2 5 0o600 7), [], [], 0⟩ = .ok w' ∧ w'.files ["a"] = some (file 2 5 0o644 0) ∧
      (file 2 5 0o644 0).body ≠ (file 1 5 0o644 0).body := by
  have hfuel : (oneFileTree (file 1 5 0o644 0)).depth < 2 := by decide
  obtain ⟨w', hw', -, -, hmerged⟩ := merges (oneFileTree (file 1 5 0o644 0)) (fun _ => someStamp) hfuel
    (w := ⟨oneFile (file 2 5 0o600 7), [], [], 0⟩) rfl rfl (oneFile_rooted _)
  exact ⟨w', hw', (hmerged ["a"]).eq_entry rfl rfl (.inl rfl), by decide⟩

end DarlingServer.TreeMerge
