import DarlingServer.Lib.FileTree
/-!
# Merging the system tree into the prefix

`copyAndSetAttributes` brings the entries of the system's tree into the prefix. It is
called for the two roots, and for each name in a source directory it extends both path
buffers, calls itself, and cuts them back.

What it leaves is said for each path by the entries the two trees had there (`Merged`);
`copyAndSetAttributes_ends` says that a call does so, and where it stops.

The system calls do what they are asked. What a new entry has for attributes before they
are set, and the times that directories get as their entries come and go, are arbitrary.
Paths are relative to the two roots, as lists of names.
-/

namespace DarlingServer.TreeMerge

open FileTree

def compareTimespec (a b : Timespec) : Int :=
  if a.sec ≠ b.sec then
    if a.sec > b.sec then 1 else -1
  else if a.nsec ≠ b.nsec then
    if a.nsec > b.nsec then 1 else -1
  else 0

@[simp] theorem compareTimespec_self (a : Timespec) : compareTimespec a a = 0 := by
  simp [compareTimespec]

theorem compareTimespec_cases (a b : Timespec) :
    compareTimespec a b = -1 ∨ compareTimespec a b = 0 ∨ compareTimespec a b = 1 := by
  unfold compareTimespec
  split
  · split <;> simp
  · split
    · split <;> simp
    · simp

theorem compareTimespec_before {a b : Timespec} : compareTimespec a b = -1 ↔ a.Before b := by
  unfold compareTimespec Timespec.Before
  split
  · split <;> simp <;> omega
  · split
    · split <;> simp <;> omega
    · simp
      omega

theorem compareTimespec_swap (a b : Timespec) : compareTimespec b a = -compareTimespec a b := by
  grind [compareTimespec]

theorem compareTimespec_after {a b : Timespec} : compareTimespec a b = 1 ↔ b.Before a := by
  rw [← compareTimespec_before, compareTimespec_swap a b]
  omega

/-! ## The source tree -/

/-- A finite tree that does not change. `readdir` gives each name once, in any order,
with or without the two dots. -/
structure Tree where
  entry : Files
  readdir : Path → List String
  depth : Nat
  root : entry [] ≠ none
  rooted : entry.Rooted
  nodup : ∀ p, (readdir p).Nodup
  mem_readdir : ∀ p n, entry (p ++ [n]) ≠ none ↔ n ∈ readdir p ∧ n ≠ "." ∧ n ≠ ".."
  length_le : ∀ p, entry p ≠ none → p.length ≤ depth

/-! ## The function -/

inductive Abort where
  | stat
  | mkdir
  | unlink
  | copy
  | attributes
  /-- The fuel of the recursion is used up. -/
  | fuel
  deriving DecidableEq, Repr

/-- What a new entry has before its attributes are set. -/
structure Stamp where
  attributes : Attributes
  mode : Nat

def Stamp.entry (s : Stamp) (b : Body) : Entry := ⟨b.chmod s.mode, s.attributes⟩

/-- The destination and the two buffers; `tick` counts the changes made. -/
structure World where
  files : Files
  fromPath : Path
  toPath : Path
  tick : Nat

/-- `utimensat`, `fchownat` and `fchmodat` on an entry, with another one's attributes. -/
def setAttributes (y x : Entry) : Entry := ⟨y.body.chmod x.body.mode, x.attributes⟩

namespace World

/-- `push_back('/')` and `append(entry->d_name)`. -/
def push (w : World) (name : String) : World :=
  { w with fromPath := w.fromPath ++ [name], toPath := w.toPath ++ [name] }

def resize (w : World) (oldFromSize oldToSize : Nat) : World :=
  { w with fromPath := w.fromPath.take oldFromSize, toPath := w.toPath.take oldToSize }

/-- Whether an entry can be made at `toPath`: there is none, in a directory. -/
def free (w : World) : Bool := (w.files w.toPath).isNone && (w.toPath = [] || w.files.isDir w.toPath.dropLast)

section
variable (fresh : Nat → Stamp)

def put (w : World) (e : Option Entry) : World :=
  { w with files := w.files.put w.toPath e (fresh w.tick).attributes.mtime, tick := w.tick + 1 }

def mkdir (w : World) (mode : Nat) : Except Abort World :=
  if w.free then .ok (w.put fresh (some ((fresh w.tick).entry (.directory mode)))) else .error .mkdir

/-- `std::filesystem::copy` of a regular file or, with `copy_symlinks`, a link. -/
def copy (w : World) (x : Entry) : Except Abort World :=
  if w.free then .ok (w.put fresh (some ((fresh w.tick).entry x.body))) else .error .copy

def unlink (w : World) : Except Abort World :=
  if w.files.isLeaf w.toPath then .ok (w.put fresh none) else .error .unlink

end

/-- The calls under `if (updateAttributes)`. -/
def updateAttributes (w : World) (fromStat : Entry) : Except Abort World :=
  match w.files w.toPath with
  | none => .error .attributes
  | some e => .ok { w with files := Function.update w.files w.toPath (some (setAttributes e fromStat)) }

end World

/-- The loop over a source directory. -/
def eachEntry (copyAndSetAttributes : World → Except Abort World) : List String → World → Except Abort World
  | [], w => .ok w
  | name :: names, w =>
    if name = "." ∨ name = ".." then eachEntry copyAndSetAttributes names w
    else
      match copyAndSetAttributes (w.push name) with
      | .ok w' => eachEntry copyAndSetAttributes names (w'.resize w.fromPath.length w.toPath.length)
      | .error abort => .error abort

section
variable (S : Tree) (fresh : Nat → Stamp)

/-- Everything between the two `lstat`s and the attributes, and whether these are to be updated. -/
def copyEntry (copyAndSetAttributes : World → Except Abort World) (fromStat : Entry) (w : World) :
    Except Abort (World × Bool) :=
  if fromStat.isDir then
    match w.files w.toPath with
    | some toStat =>
      if !toStat.isDir then .ok (w, false)
      else do
        let w ← eachEntry copyAndSetAttributes (S.readdir w.fromPath) w
        return (w, false)
    | none => do
      let w ← w.mkdir fresh fromStat.body.mode
      let w ← eachEntry copyAndSetAttributes (S.readdir w.fromPath) w
      return (w, true)
  else
    match w.files w.toPath with
    | some toStat =>
      if fromStat.fileType ≠ toStat.fileType then .ok (w, false)
      else
        let compareResult := compareTimespec fromStat.mtime toStat.mtime
        if compareResult = -1 then .ok (w, false)
        else if compareResult = 0 then .ok (w, true)
        else if compareResult = 1 then do
          let w ← w.unlink fresh
          let w ← w.copy fresh fromStat
          return (w, true)
        else .ok (w, false)
    | none => do
      let w ← w.copy fresh fromStat
      return (w, true)

def copyAndSetAttributes : Nat → World → Except Abort World
  | 0, _ => .error .fuel
  | fuel + 1, w =>
    match S.entry w.fromPath with
    | none => .error .stat
    | some fromStat =>
      -- `ENOTDIR` of the second `lstat`
      if w.toPath ≠ [] ∧ w.files.isLeaf w.toPath.dropLast then .error .stat
      else do
        let (w, update) ← copyEntry S fresh (copyAndSetAttributes fuel) fromStat w
        if update then w.updateAttributes fromStat else .ok w

end

/-! ## What it leaves at a path -/

/-- What becomes of an entry and its counterpart, unless both are directories. -/
def mergeEntry (x y : Entry) : Entry :=
  if x.fileType ≠ y.fileType then y
  else if compareTimespec x.mtime y.mtime = -1 then y
  else if compareTimespec x.mtime y.mtime = 0 then setAttributes y x
  else x

/-- An entry is made at the path, or made anew. -/
def Creates (S : Tree) (D : Files) (p : Path) : Prop :=
  ∃ x, S.entry p = some x ∧ (D p = none ∨
    ∃ y, D p = some y ∧ x.isDir = false ∧ x.fileType = y.fileType ∧ compareTimespec x.mtime y.mtime = 1)

/-- What is at a path of the destination afterwards, by the two trees before. -/
inductive Merged (S : Tree) (D : Files) (p : Path) : Option Entry → Prop
  | kept (hs : S.entry p = none) : Merged S D p (D p)
  | blocked (hd : D p = none) (hb : D.Blocked p) : Merged S D p none
  | made {x} (hs : S.entry p = some x) (hd : D p = none) (hb : ¬ D.Blocked p) : Merged S D p (some x)
  | directory {x y t} (hs : S.entry p = some x) (hd : D p = some y) (hx : x.isDir = true) (hy : y.isDir = true)
    (ht : (∀ n, ¬ Creates S D (p ++ [n])) → t = y.mtime) : Merged S D p (some (y.withMtime t))
  | entry {x y} (hs : S.entry p = some x) (hd : D p = some y) (hxy : x.isDir = false ∨ y.isDir = false) :
    Merged S D p (some (mergeEntry x y))

variable {S : Tree} {D D' D₁ : Files} {p q : Path}

theorem creates_congr (h : D₁ p = D p) : Creates S D₁ p ↔ Creates S D p := by
  simp only [Creates, h]

theorem blocked_congr (h : ∀ r, r <+: p → r ≠ p → D₁.isLeaf r = D.isLeaf r) : D₁.Blocked p ↔ D.Blocked p := by
  constructor
  · rintro ⟨r, hr, hne, hleaf⟩
    exact ⟨r, hr, hne, (h r hr hne).symm.trans hleaf⟩
  · rintro ⟨r, hr, hne, hleaf⟩
    exact ⟨r, hr, hne, (h r hr hne).trans hleaf⟩

/-- Only what is at the path and below matters, and what is blocked above. -/
theorem Merged.congr {e : Option Entry} (h : Merged S D₁ p e) (hbelow : ∀ r, p <+: r → D₁ r = D r)
    (habove : ∀ r, r <+: p → r ≠ p → D₁.isLeaf r = D.isLeaf r) : Merged S D p e := by
  have hp : D₁ p = D p := hbelow p List.prefix_rfl
  cases h with
  | kept hs =>
    rw [hp]
    exact .kept hs
  | blocked hd hb => exact .blocked (hp ▸ hd) ((blocked_congr habove).1 hb)
  | made hs hd hb => exact .made hs (hp ▸ hd) fun h => hb ((blocked_congr habove).2 h)
  | directory hs hd hx hy ht =>
    refine .directory hs (hp ▸ hd) hx hy fun hnone => ht fun n hn => hnone n ?_
    exact (creates_congr (hbelow _ (List.prefix_append _ _))).1 hn
  | entry hs hd hxy => exact .entry hs (hp ▸ hd) hxy

/-! ## Calls and loops -/

/-- What a call for `p` does to the rest: the directory it is in may get another time. -/
structure Around (p : Path) (created : Prop) (D D' : Files) : Prop where
  far : ∀ q, ¬ p <+: q → q ≠ p.dropLast → D' q = D q
  parent : p ≠ [] → Files.Retimed (D p.dropLast) (D' p.dropLast)
  same : ¬ created → p ≠ [] → D' p.dropLast = D p.dropLast

theorem Around.refl (p : Path) (created : Prop) (D : Files) : Around p created D D :=
  ⟨fun _ _ _ => rfl, fun _ => .refl _, fun _ _ => rfl⟩

theorem Around.isLeaf {created : Prop} (h : Around p created D D') (hq : ¬ p <+: q) : D'.isLeaf q = D.isLeaf q := by
  by_cases hparent : q = p.dropLast
  · subst hparent
    have hp : p ≠ [] := fun hp => hq (hp ▸ List.nil_prefix)
    exact (h.parent hp).isLeaf
  · simp only [Files.isLeaf, h.far q hq hparent]

/-- A call for `p`. -/
structure Copied (S : Tree) (p : Path) (D D' : Files) : Prop where
  below : ∀ q, p <+: q → Merged S D q (D' q)
  around : Around p (Creates S D p) D D'

/-- The loop over `names` of the directory `p`. -/
structure Looped (S : Tree) (p : Path) (names : List String) (D D' : Files) : Prop where
  done : ∀ n ∈ names, S.entry (p ++ [n]) ≠ none → ∀ q, p ++ [n] <+: q → Merged S D q (D' q)
  rest : ∀ q, q ≠ p → (∀ n ∈ names, S.entry (p ++ [n]) ≠ none → ¬ p ++ [n] <+: q) → D' q = D q
  self : Files.Retimed (D p) (D' p)
  same : (∀ n ∈ names, ¬ Creates S D (p ++ [n])) → D' p = D p

/-- Where a call can be made: the way is clear, and entries below are in directories. -/
structure Ready (D : Files) (p : Path) : Prop where
  parent : p ≠ [] → D.isDir p.dropLast = true
  clear : ¬ D.Blocked p
  rooted : ∀ q n, p <+: q → D (q ++ [n]) ≠ none → D.isDir q = true

/-- Where the loop is in a directory, with `names` ahead. -/
structure Waiting (D : Files) (p : Path) (names : List String) : Prop where
  dir : D.isDir p = true
  clear : ¬ D.Blocked p
  rooted : ∀ n ∈ names, ∀ q m, p ++ [n] <+: q → D (q ++ [m]) ≠ none → D.isDir q = true

theorem not_below_child (p : Path) (n : String) : ¬ p ++ [n] <+: p := fun h => by
  have hlength := h.length_le
  rw [List.length_append, List.length_singleton] at hlength
  omega

theorem ne_of_below_child {n : String} (h : p ++ [n] <+: q) : q ≠ p := by
  rintro rfl
  exact not_below_child _ _ h

/-- The children of a directory are apart. -/
theorem child_unique {n m : String} (hn : p ++ [n] <+: q) (hm : p ++ [m] <+: q) : n = m := by
  have h := List.prefix_of_prefix_length_le hn hm (by simp)
  simpa using h.eq_of_length (by simp)

/-- A path below `p` is `p` or below one of its children. -/
theorem prefix_cases (h : p <+: q) : q = p ∨ ∃ n, p ++ [n] <+: q := by
  obtain ⟨r, rfl⟩ := h
  cases r with
  | nil => exact .inl (List.append_nil p)
  | cons n r => exact .inr ⟨n, r, by simp⟩

theorem not_blocked_child {n : String} (hdir : D.isDir p = true) (hclear : ¬ D.Blocked p) : ¬ D.Blocked (p ++ [n]) := by
  rintro ⟨r, hr, hne, hleaf⟩
  rcases List.prefix_concat_iff.1 hr with rfl | hr
  · exact hne rfl
  · by_cases hrp : r = p
    · rw [hrp, Files.not_isLeaf_of_isDir hdir] at hleaf
      cases hleaf
    · exact hclear ⟨r, hr, hrp, hleaf⟩

theorem Waiting.ready {names : List String} {n : String} (h : Waiting D p names) (hn : n ∈ names) :
    Ready D (p ++ [n]) where
  parent _ := by rw [List.dropLast_concat]; exact h.dir
  clear := not_blocked_child h.dir h.clear
  rooted := h.rooted n hn

/-- Below another child, and at it, everything is as before the call. -/
theorem Copied.apart {n m : String} (h : Copied S (p ++ [n]) D D₁) (hne : n ≠ m) (hq : p ++ [m] <+: q) :
    D₁ q = D q := by
  refine h.around.far q (fun hn => hne (child_unique hn hq)) ?_
  rw [List.dropLast_concat]
  exact ne_of_below_child hq

/-- After a call for one of the names the loop waits for the others. -/
theorem Waiting.next {names : List String} {n : String} (h : Waiting D p (n :: names)) (hn : n ∉ names)
    (hcopied : Copied S (p ++ [n]) D D₁) : Waiting D₁ p names where
  dir := by
    have hretimed := hcopied.around.parent (by simp)
    rw [List.dropLast_concat] at hretimed
    exact hretimed.isDir.trans h.dir
  clear := by
    rw [blocked_congr fun r hr _ => hcopied.around.isLeaf fun hnr => not_below_child p n (hnr.trans hr)]
    exact h.clear
  rooted m hm q k hq hsome := by
    have hne : n ≠ m := fun he => hn (he ▸ hm)
    rw [hcopied.apart hne (hq.trans (List.prefix_append _ _))] at hsome
    simpa only [Files.isDir, hcopied.apart hne hq] using h.rooted m (List.mem_cons_of_mem _ hm) q k hq hsome

theorem Looped.nil (S : Tree) (p : Path) (D : Files) : Looped S p [] D D :=
  ⟨nofun, fun _ _ _ => rfl, .refl _, fun _ => rfl⟩

/-- A name that is not in the tree. -/
theorem Looped.skip {names : List String} {n : String} (h : Looped S p names D D') (hn : S.entry (p ++ [n]) = none) :
    Looped S p (n :: names) D D' where
  done m hm hs := by
    rcases List.mem_cons.1 hm with rfl | hm
    · exact absurd hn hs
    · exact h.done m hm hs
  rest q hq hnot := h.rest q hq fun m hm => hnot m (List.mem_cons_of_mem _ hm)
  self := h.self
  same hnone := h.same fun m hm => hnone m (List.mem_cons_of_mem _ hm)

theorem Looped.cons {names : List String} {n : String} (hcopied : Copied S (p ++ [n]) D D₁)
    (h : Looped S p names D₁ D') (hs : S.entry (p ++ [n]) ≠ none) (hn : n ∉ names) :
    Looped S p (n :: names) D D' where
  done m hm hsm q hq := by
    rcases List.mem_cons.1 hm with rfl | hm
    · -- the rest of the loop leaves it
      have hrest : D' q = D₁ q := h.rest q (ne_of_below_child hq) fun k hk _ hkq => hn (child_unique hkq hq ▸ hk)
      rw [hrest]
      exact hcopied.below q hq
    · have hne : n ≠ m := fun he => hn (he ▸ hm)
      refine (h.done m hm hsm q hq).congr (fun r hr => hcopied.apart hne (hq.trans hr)) fun r hr _ => ?_
      exact hcopied.around.isLeaf fun hnr => hne (child_unique (hnr.trans hr) hq)
  rest q hq hnot := by
    have hfar : D₁ q = D q :=
      hcopied.around.far q (hnot n List.mem_cons_self hs) (by rw [List.dropLast_concat]; exact hq)
    exact (h.rest q hq fun m hm => hnot m (List.mem_cons_of_mem _ hm)).trans hfar
  self := by
    have hretimed := hcopied.around.parent (by simp)
    rw [List.dropLast_concat] at hretimed
    exact hretimed.trans h.self
  same hnone := by
    have hsame := hcopied.around.same (hnone n List.mem_cons_self) (by simp)
    rw [List.dropLast_concat] at hsame
    refine (h.same fun m hm hcreates => ?_).trans hsame
    have hne : n ≠ m := fun he => hn (he ▸ hm)
    exact hnone m (List.mem_cons_of_mem _ hm) ((creates_congr (hcopied.apart hne List.prefix_rfl)).1 hcreates)

/-- A call for `p` comes to its end with this result. -/
def Ends (S : Tree) (p : Path) (w : World) (result : Except Abort World) : Prop :=
  ∃ w', result = .ok w' ∧ w'.fromPath = p ∧ w'.toPath = p ∧ Copied S p w.files w'.files

def Copies (S : Tree) (copy : World → Except Abort World) (p : Path) : Prop :=
  ∀ w : World, w.fromPath = p → w.toPath = p → Ready w.files p → Ends S p w (copy w)

/-- The loop calls for every name and cuts the buffers back each time. -/
theorem eachEntry_looped {copy : World → Except Abort World} {names : List String}
    (hcopy : ∀ n ∈ names, S.entry (p ++ [n]) ≠ none → Copies S copy (p ++ [n]))
    (hdots : ∀ n ∈ names, S.entry (p ++ [n]) ≠ none ↔ n ≠ "." ∧ n ≠ "..") (hnodup : names.Nodup) (w : World)
    (hfrom : w.fromPath = p) (hto : w.toPath = p) (hwaiting : Waiting w.files p names) :
    ∃ w', eachEntry copy names w = .ok w' ∧ w'.fromPath = p ∧ w'.toPath = p ∧ Looped S p names w.files w'.files := by
  induction names generalizing w with
  | nil => exact ⟨w, rfl, hfrom, hto, .nil S p w.files⟩
  | cons n names ih =>
    obtain ⟨hn, hnodup⟩ := List.nodup_cons.1 hnodup
    have hcopy' := fun m hm => hcopy m (List.mem_cons_of_mem n hm)
    have hdots' := fun m hm => hdots m (List.mem_cons_of_mem n hm)
    by_cases hdot : n = "." ∨ n = ".."
    · obtain ⟨w', hw', hfrom', hto', hlooped⟩ := ih hcopy' hdots' hnodup w hfrom hto
        ⟨hwaiting.dir, hwaiting.clear, fun m hm => hwaiting.rooted m (List.mem_cons_of_mem n hm)⟩
      have hnone : S.entry (p ++ [n]) = none := by
        by_contra hs
        have hnot := (hdots n List.mem_cons_self).1 hs
        exact hdot.elim hnot.1 hnot.2
      exact ⟨w', by rw [eachEntry, if_pos hdot, hw'], hfrom', hto', hlooped.skip hnone⟩
    · have hs : S.entry (p ++ [n]) ≠ none := (hdots n List.mem_cons_self).2 (not_or.1 hdot)
      obtain ⟨w₁, hw₁, hfrom₁, hto₁, hcopied⟩ := hcopy n List.mem_cons_self hs (w.push n)
        (by rw [← hfrom]; rfl) (by rw [← hto]; rfl) (hwaiting.ready List.mem_cons_self)
      have hfrom₂ : (w₁.resize w.fromPath.length w.toPath.length).fromPath = p := by
        simp [World.resize, hfrom₁, hfrom]
      have hto₂ : (w₁.resize w.fromPath.length w.toPath.length).toPath = p := by
        simp [World.resize, hto₁, hto]
      obtain ⟨w', hw', hfrom', hto', hlooped⟩ := ih hcopy' hdots' hnodup
        (w₁.resize w.fromPath.length w.toPath.length) hfrom₂ hto₂ (hwaiting.next hn hcopied)
      exact ⟨w', by rw [eachEntry, if_neg hdot, hw₁]; exact hw', hfrom', hto', .cons hcopied hlooped hs hn⟩

/-! ## One call -/

theorem Around.put {created : Prop} (h : Around p created D D₁) (hcreated : created) (e : Option Entry) (t : Timespec) :
    Around p created D (D₁.put p e t) where
  far q hq hparent := by
    have hne : q ≠ p := fun he => hq (he ▸ List.prefix_rfl)
    exact (Files.put_other e t hne hparent).trans (h.far q hq hparent)
  parent hp := (h.parent hp).trans (Files.put_parent e t hp)
  same hnot := absurd hcreated hnot

/-- The attributes of the entry itself. -/
theorem Around.update {created : Prop} (h : Around p created D D₁) (e : Option Entry) :
    Around p created D (Function.update D₁ p e) := by
  refine ⟨fun q hq hparent => ?_, fun hp => ?_, fun hnot hp => ?_⟩
  · have hqp : q ≠ p := fun he => hq (he ▸ List.prefix_rfl)
    rw [Function.update_of_ne hqp]
    exact h.far q hq hparent
  · rw [Function.update_of_ne (Files.dropLast_ne hp)]
    exact h.parent hp
  · rw [Function.update_of_ne (Files.dropLast_ne hp)]
    exact h.same hnot hp

theorem Tree.none_below (S : Tree) (hdir : S.entry.isDir p = false) (hq : p <+: q) (hne : q ≠ p) : S.entry q = none :=
  Files.none_below (fun r n _ => S.rooted r n) hdir hq hne

/-- A call for a regular file or a link. -/
theorem Copied.leaf {x : Entry} (hs : S.entry p = some x) (hx : x.isDir = false) (hmerged : Merged S D p (D' p))
    (hbelow : ∀ q, p <+: q → q ≠ p → D' q = D q) (haround : Around p (Creates S D p) D D') : Copied S p D D' := by
  refine ⟨fun q hq => ?_, haround⟩
  by_cases hne : q = p
  · rw [hne]
    exact hmerged
  · rw [hbelow q hq hne]
    exact .kept (S.none_below (by simp [Files.isDir, hs, hx]) hq hne)

/-- A call that finds something else where the source has a directory. -/
theorem Copied.obstructed {x y : Entry} (hs : S.entry p = some x) (hx : x.isDir = true) (hd : D p = some y)
    (hy : y.isDir = false) (hready : Ready D p) : Copied S p D D := by
  refine ⟨fun q hq => ?_, .refl _ _ _⟩
  by_cases hne : q = p
  · subst hne
    have htypes : x.fileType ≠ y.fileType := fun he => by simp [Entry.isDir, he] at hx hy; exact hy hx
    have hmerged : Merged S D q (some (mergeEntry x y)) := .entry hs hd (.inr hy)
    rwa [mergeEntry, if_pos htypes, ← hd] at hmerged
  · have hnone : D q = none := Files.none_below hready.rooted (by simp [Files.isDir, hd, hy]) hq hne
    rw [hnone]
    exact .blocked hnone ⟨p, hq, Ne.symm hne, by simp [Files.isLeaf, hd, hy]⟩

/-- After the loop everything below the directory's children is done. -/
theorem Looped.below {n : String} (h : Looped S p (S.readdir p) D D') (hq : p ++ [n] <+: q) : Merged S D q (D' q) := by
  by_cases hs : S.entry (p ++ [n]) = none
  · have hnone : S.entry q = none := by
      by_cases hne : q = p ++ [n]
      · rw [hne, hs]
      · exact S.none_below (by simp [Files.isDir, hs]) hq hne
    have hrest : D' q = D q :=
      h.rest q (ne_of_below_child hq) fun m _ hm hmq => hm (child_unique hmq hq ▸ hs)
    rw [hrest]
    exact .kept hnone
  · exact h.done n ((S.mem_readdir p n).1 hs).1 hs q hq

theorem Looped.outside {names : List String} (h : Looped S p names D D') (hq : ¬ p <+: q) : D' q = D q :=
  h.rest q (fun he => hq (he ▸ List.prefix_rfl)) fun _ _ _ hn => hq ((List.prefix_append p _).trans hn)

/-- A call for a directory that is there. -/
theorem Copied.existing {x y : Entry} (hs : S.entry p = some x) (hx : x.isDir = true) (hd : D p = some y)
    (hy : y.isDir = true) (hlooped : Looped S p (S.readdir p) D D') : Copied S p D D' := by
  constructor
  · intro q hq
    rcases prefix_cases hq with rfl | ⟨n, hn⟩
    · obtain ⟨t, ht⟩ := hlooped.self
      have hself : D' q = some (y.withMtime t) := by rw [ht, hd]; rfl
      rw [hself]
      refine .directory hs hd hx hy fun hnone => ?_
      have hsame := hlooped.same fun n _ => hnone n
      rw [hself, hd] at hsame
      exact congrArg Entry.mtime (Option.some.inj hsame)
    · exact hlooped.below hn
  · have houtside : p ≠ [] → D' p.dropLast = D p.dropLast := fun hp =>
      hlooped.outside (Files.not_prefix_dropLast hp)
    refine ⟨fun q hq _ => hlooped.outside hq, fun hp => ?_, fun _ hp => houtside hp⟩
    rw [houtside hp]
    exact .refl _

/-- A call for a directory that is made: its attributes come after its entries. -/
theorem Copied.new {x e : Entry} {t : Timespec} (hs : S.entry p = some x) (hd : D p = none) (hready : Ready D p)
    (he : e.isDir = true) (hlooped : Looped S p (S.readdir p) (D.put p (some e) t) D') :
    Copied S p D (Function.update D' p (some x)) := by
  have hcreates : Creates S D p := ⟨x, hs, .inl hd⟩
  constructor
  · intro q hq
    rcases prefix_cases hq with rfl | ⟨n, hn⟩
    · rw [Function.update_self]
      exact .made hs hd hready.clear
    · rw [Function.update_of_ne (ne_of_below_child hn)]
      refine (hlooped.below hn).congr (fun r hr => ?_) fun r hr _ => ?_
      · exact Files.put_below _ _ (hq.trans hr) (ne_of_below_child (hn.trans hr))
      · by_cases hrp : r = p
        · simp [hrp, Files.isLeaf, hd, he]
        · exact Files.put_isLeaf _ _ hrp
  · have hput := (Around.refl p (Creates S D p) D).put hcreates (some e) t
    refine Around.update ⟨fun q hq hparent => ?_, fun hp => ?_, fun hnot => absurd hcreates hnot⟩ _
    · exact (hlooped.outside hq).trans (hput.far q hq hparent)
    · rw [hlooped.outside (Files.not_prefix_dropLast hp)]
      exact hput.parent hp

/-- The loop can start in a directory that is there. -/
theorem Ready.waiting (h : Ready D p) (hdir : D.isDir p = true) (names : List String) : Waiting D p names :=
  ⟨hdir, h.clear, fun n _ q m hq => h.rooted q m ((List.prefix_append p [n]).trans hq)⟩

/-- And in one that has just been made. -/
theorem Ready.waiting_put {e : Entry} {t : Timespec} (h : Ready D p) (he : e.isDir = true) (names : List String) :
    Waiting (D.put p (some e) t) p names where
  dir := by simp [Files.isDir, he]
  clear := by
    rw [blocked_congr fun r _ hne => Files.put_isLeaf (some e) t hne]
    exact h.clear
  rooted n _ q m hq hsome := by
    have hpq : p <+: q := (List.prefix_append p [n]).trans hq
    rw [Files.put_below _ _ (hpq.trans (List.prefix_append q [m]))
      (ne_of_below_child (hq.trans (List.prefix_append q [m])))] at hsome
    simpa only [Files.isDir, Files.put_below _ _ hpq (ne_of_below_child hq)] using h.rooted q m hpq hsome

section
variable {fresh : Nat → Stamp} {fuel : Nat} {w : World} {x : Entry}

/-- An entry that has been made becomes the one it was made from. -/
theorem setAttributes_made (s : Stamp) (x : Entry) : setAttributes (s.entry x.body) x = x := by
  simp [setAttributes, Stamp.entry]

theorem setAttributes_directory (hx : x.isDir = true) (s : Stamp) (mode : Nat) (t : Timespec) :
    setAttributes ((s.entry (.directory mode)).withMtime t) x = x := by
  obtain ⟨body, attributes⟩ := x
  cases body with
  | directory => rfl
  | regular | symlink => simp [Entry.isDir, Entry.fileType, Body.fileType] at hx

theorem Ready.free (h : Ready w.files w.toPath) (hd : w.files w.toPath = none) : w.free = true := by
  by_cases hp : w.toPath = []
  · simp only [World.free, hd]
    simp [hp]
  · simp [World.free, hd, h.parent hp]

/-- Where the directory of the path is a directory the second `lstat` works. -/
theorem copyAndSetAttributes_succ {w₁ : World} {update : Bool} (hs : S.entry w.fromPath = some x)
    (hready : Ready w.files w.toPath)
    (hcopy : copyEntry S fresh (copyAndSetAttributes S fresh fuel) x w = .ok (w₁, update)) :
    copyAndSetAttributes S fresh (fuel + 1) w = if update then w₁.updateAttributes x else .ok w₁ := by
  have hstat : ¬ (w.toPath ≠ [] ∧ w.files.isLeaf w.toPath.dropLast = true) := by
    rintro ⟨hp, hleaf⟩
    rw [Files.not_isLeaf_of_isDir (hready.parent hp)] at hleaf
    cases hleaf
  simp only [copyAndSetAttributes, hs, if_neg hstat, hcopy]
  rfl

theorem put_files (w : World) (e : Option Entry) : (w.put fresh e).files w.toPath = e := Files.put_self _ _

theorem updateAttributes_eq {w : World} {e : Entry} (h : w.files w.toPath = some e) :
    w.updateAttributes x = .ok { w with files := Function.update w.files w.toPath (some (setAttributes e x)) } := by
  simp only [World.updateAttributes, h]

/-- What is as it should be stays. -/
theorem ends_unchanged (hs : S.entry p = some x) (hfrom : w.fromPath = p) (hto : w.toPath = p)
    (hready : Ready w.files p) (hcopied : Copied S p w.files w.files)
    (hentry : copyEntry S fresh (copyAndSetAttributes S fresh fuel) x w = .ok (w, false)) :
    Ends S p w (copyAndSetAttributes S fresh (fuel + 1) w) :=
  ⟨w, copyAndSetAttributes_succ (hfrom ▸ hs) (hto ▸ hready) hentry, hfrom, hto, hcopied⟩

/-- A regular file or a link that is not there is copied. -/
theorem ends_missing (hs : S.entry p = some x) (hx : x.isDir = false) (hfrom : w.fromPath = p) (hto : w.toPath = p)
    (hready : Ready w.files p) (hd : w.files p = none) :
    Ends S p w (copyAndSetAttributes S fresh (fuel + 1) w) := by
  subst hto
  have hcopy : w.copy fresh x =
      .ok (w.put fresh (some ((fresh w.tick).entry x.body))) := by
    rw [World.copy, if_pos (hready.free hd)]
  have hentry : copyEntry S fresh (copyAndSetAttributes S fresh fuel) x w =
      .ok (w.put fresh (some ((fresh w.tick).entry x.body)), true) := by
    simp only [copyEntry, hx, hd, hcopy]
    rfl
  have hcall := copyAndSetAttributes_succ (hfrom ▸ hs) hready hentry
  rw [if_pos rfl, updateAttributes_eq (put_files _ _), setAttributes_made] at hcall
  have hcreates : Creates S w.files w.toPath := ⟨x, hs, .inl hd⟩
  refine ⟨_, hcall, hfrom, rfl, .leaf hs hx ?_ (fun q hq hne => ?_) (((Around.refl _ _ _).put hcreates _ _).update _)⟩
  · simp only [World.put, Function.update_self]
    exact .made hs hd hready.clear
  · simp only [World.put, Function.update_of_ne hne]
    exact Files.put_below _ _ hq hne

/-- One that is as new gets its attributes. -/
theorem ends_equal {y : Entry} (hs : S.entry p = some x) (hx : x.isDir = false) (hfrom : w.fromPath = p)
    (hto : w.toPath = p) (hready : Ready w.files p) (hd : w.files p = some y) (htype : x.fileType = y.fileType)
    (htime : compareTimespec x.mtime y.mtime = 0) :
    Ends S p w (copyAndSetAttributes S fresh (fuel + 1) w) := by
  subst hto
  have hentry : copyEntry S fresh (copyAndSetAttributes S fresh fuel) x w = .ok (w, true) := by
    simp [copyEntry, hx, hd, htype, htime]
  have hcall := copyAndSetAttributes_succ (hfrom ▸ hs) hready hentry
  rw [if_pos rfl, updateAttributes_eq hd] at hcall
  have hmerge : mergeEntry x y = setAttributes y x := by simp [mergeEntry, htype, htime]
  refine ⟨_, hcall, hfrom, rfl, .leaf hs hx ?_ (fun q hq hne => ?_) ((Around.refl _ _ _).update _)⟩
  · simp only [Function.update_self, ← hmerge]
    exact .entry hs hd (.inl hx)
  · exact Function.update_of_ne hne _ _

/-- One that is older is removed and copied. -/
theorem ends_newer {y : Entry} (hs : S.entry p = some x) (hx : x.isDir = false) (hfrom : w.fromPath = p)
    (hto : w.toPath = p) (hready : Ready w.files p) (hd : w.files p = some y) (htype : x.fileType = y.fileType)
    (htime : compareTimespec x.mtime y.mtime = 1) :
    Ends S p w (copyAndSetAttributes S fresh (fuel + 1) w) := by
  subst hto
  have hy : y.isDir = false := by simpa [Entry.isDir, htype] using hx
  have hunlink : w.unlink fresh = .ok (w.put fresh none) := by
    rw [World.unlink, if_pos (by simp [Files.isLeaf, hd, hy])]
  have hfree : (w.put fresh none).free = true := by
    by_cases hp : w.toPath = []
    · simp [World.free, World.put, hp]
    · have hparent := (Files.put_parent (D := w.files) none (fresh w.tick).attributes.mtime hp).isDir
      simp [World.free, World.put, hparent, hready.parent hp]
  have hcopy : (w.put fresh none).copy fresh x = .ok ((w.put fresh none).put fresh
      (some ((fresh (w.tick + 1)).entry x.body))) := by
    rw [World.copy, if_pos hfree]
    rfl
  have hentry : copyEntry S fresh (copyAndSetAttributes S fresh fuel) x w = .ok ((w.put fresh none).put fresh
      (some ((fresh (w.tick + 1)).entry x.body)), true) := by
    have hbranch : copyEntry S fresh (copyAndSetAttributes S fresh fuel) x w = (do
        let w ← w.unlink fresh
        let w ← w.copy fresh x
        return (w, true)) := by simp [copyEntry, hx, hd, htype, htime]
    rw [hbranch, hunlink]
    change ((w.put fresh none).copy fresh x >>= fun w => pure (w, true)) = _
    rw [hcopy]
    rfl
  have hcall := copyAndSetAttributes_succ (hfrom ▸ hs) hready hentry
  rw [if_pos rfl, updateAttributes_eq (put_files _ _), setAttributes_made] at hcall
  have hcreates : Creates S w.files w.toPath := ⟨x, hs, .inr ⟨y, hd, hx, htype, htime⟩⟩
  have hmerge : mergeEntry x y = x := by simp [mergeEntry, htype, htime]
  refine ⟨_, hcall, hfrom, rfl, .leaf hs hx ?_ (fun q hq hne => ?_)
    ((((Around.refl _ _ _).put hcreates _ _).put hcreates _ _).update _)⟩
  · simp only [World.put, Function.update_self]
    have hmerged : Merged S w.files w.toPath (some (mergeEntry x y)) := .entry hs hd (.inl hx)
    rwa [hmerge] at hmerged
  · simp only [World.put, Function.update_of_ne hne]
    rw [Files.put_below _ _ hq hne, Files.put_below _ _ hq hne]

/-- A call for a regular file or a link. -/
theorem ends_leaf (hs : S.entry p = some x) (hx : x.isDir = false) (hfrom : w.fromPath = p) (hto : w.toPath = p)
    (hready : Ready w.files p) : Ends S p w (copyAndSetAttributes S fresh (fuel + 1) w) := by
  cases hd : w.files p with
  | none => exact ends_missing hs hx hfrom hto hready hd
  | some y =>
    have hkept : mergeEntry x y = y → Copied S p w.files w.files := fun hmerge => by
      have hmerged : Merged S w.files p (some (mergeEntry x y)) := .entry hs hd (.inl hx)
      rw [hmerge, ← hd] at hmerged
      exact .leaf hs hx hmerged (fun _ _ _ => rfl) (.refl _ _ _)
    by_cases htype : x.fileType = y.fileType
    · rcases compareTimespec_cases x.mtime y.mtime with htime | htime | htime
      · refine ends_unchanged hs hfrom hto hready (hkept (by simp [mergeEntry, htime])) ?_
        subst hto
        simp [copyEntry, hx, hd, htype, htime]
      · exact ends_equal hs hx hfrom hto hready hd htype htime
      · exact ends_newer hs hx hfrom hto hready hd htype htime
    · refine ends_unchanged hs hfrom hto hready (hkept (by simp [mergeEntry, htype])) ?_
      subst hto
      simp [copyEntry, hx, hd, htype]

/-- The names of a source directory are its entries. -/
theorem eachEntry_readdir {copy : World → Except Abort World}
    (hcopy : ∀ n, S.entry (p ++ [n]) ≠ none → Copies S copy (p ++ [n])) (hfrom : w.fromPath = p) (hto : w.toPath = p)
    (hwaiting : Waiting w.files p (S.readdir p)) :
    ∃ w', eachEntry copy (S.readdir p) w = .ok w' ∧ w'.fromPath = p ∧ w'.toPath = p ∧
      Looped S p (S.readdir p) w.files w'.files := by
  refine eachEntry_looped (fun n _ => hcopy n) (fun n hn => ?_) (S.nodup p) w hfrom hto hwaiting
  rw [S.mem_readdir p n]
  exact and_iff_right hn

/-- A call for a directory, with what the calls for its entries do. -/
theorem ends_directory (hs : S.entry p = some x) (hx : x.isDir = true) (hfrom : w.fromPath = p) (hto : w.toPath = p)
    (hready : Ready w.files p)
    (hcopy : ∀ n, S.entry (p ++ [n]) ≠ none → Copies S (copyAndSetAttributes S fresh fuel) (p ++ [n])) :
    Ends S p w (copyAndSetAttributes S fresh (fuel + 1) w) := by
  cases hd : w.files p with
  | some y =>
    cases hy : y.isDir with
    | false =>
      refine ends_unchanged hs hfrom hto hready (.obstructed hs hx hd hy hready) ?_
      subst hto
      simp [copyEntry, hx, hd, hy]
    | true =>
      obtain ⟨w', hw', hfrom', hto', hlooped⟩ :=
        eachEntry_readdir hcopy hfrom hto (hready.waiting (by simp [Files.isDir, hd, hy]) _)
      have hentry : copyEntry S fresh (copyAndSetAttributes S fresh fuel) x w = .ok (w', false) := by
        have hbranch : copyEntry S fresh (copyAndSetAttributes S fresh fuel) x w =
            (eachEntry (copyAndSetAttributes S fresh fuel) (S.readdir p) w >>= fun w => pure (w, false)) := by
          rw [← hto] at hd
          simp [copyEntry, hx, hd, hy, hfrom]
        rw [hbranch, hw']
        rfl
      exact ⟨w', copyAndSetAttributes_succ (hfrom ▸ hs) (hto ▸ hready) hentry, hfrom', hto',
        .existing hs hx hd hy hlooped⟩
  | none =>
    subst hto
    have hmkdir : w.mkdir fresh x.body.mode =
        .ok (w.put fresh (some ((fresh w.tick).entry (.directory x.body.mode)))) := by
      rw [World.mkdir, if_pos (hready.free hd)]
    obtain ⟨w', hw', hfrom', hto', hlooped⟩ := eachEntry_readdir hcopy
      (w := w.put fresh (some ((fresh w.tick).entry (.directory x.body.mode)))) hfrom rfl
      (hready.waiting_put rfl _)
    have hentry : copyEntry S fresh (copyAndSetAttributes S fresh fuel) x w = .ok (w', true) := by
      have hbranch : copyEntry S fresh (copyAndSetAttributes S fresh fuel) x w = (do
          let w ← w.mkdir fresh x.body.mode
          let w ← eachEntry (copyAndSetAttributes S fresh fuel) (S.readdir w.fromPath) w
          return (w, true)) := by simp [copyEntry, hx, hd]
      rw [hbranch, hmkdir]
      change (eachEntry _ (S.readdir w.fromPath) _ >>= fun w => pure (w, true)) = _
      rw [hfrom, hw']
      rfl
    have hcall := copyAndSetAttributes_succ (hfrom ▸ hs) hready hentry
    obtain ⟨t, ht⟩ := hlooped.self
    have hself : w'.files w'.toPath = some (((fresh w.tick).entry (.directory x.body.mode)).withMtime t) := by
      rw [hto', ht, put_files]
      rfl
    rw [if_pos rfl, updateAttributes_eq hself, setAttributes_directory hx, hto'] at hcall
    exact ⟨_, hcall, hfrom', rfl, .new hs hd hready rfl hlooped⟩

end

/-- Every call with fuel for the depth below it ends, with both buffers as they were. -/
theorem copyAndSetAttributes_ends (S : Tree) (fresh : Nat → Stamp) (fuel : Nat) :
    ∀ p, S.entry p ≠ none → S.depth < p.length + fuel → Copies S (copyAndSetAttributes S fresh fuel) p := by
  induction fuel with
  | zero =>
    intro p hs hfuel
    have hlength := S.length_le p hs
    omega
  | succ fuel ih =>
    intro p hs hfuel w hfrom hto hready
    obtain ⟨x, hx⟩ := Option.ne_none_iff_exists'.1 hs
    cases hdir : x.isDir with
    | false => exact ends_leaf hx hdir hfrom hto hready
    | true =>
      refine ends_directory hx hdir hfrom hto hready fun n hn => ih (p ++ [n]) hn ?_
      rw [List.length_append, List.length_singleton]
      omega

end DarlingServer.TreeMerge
