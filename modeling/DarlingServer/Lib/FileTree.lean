import Mathlib.Logic.Function.Basic
import Mathlib.Data.List.Infix
/-!
# File trees as maps from paths

A file tree maps each path to the entry there. A path is the list of the names on it,
and `[]` is the tree's root. Making or removing an entry changes the modification time
of the directory it is in, and nothing else outside.
-/

namespace FileTree

abbrev Path := List String

structure Timespec where
  sec : Int
  nsec : Int
  deriving DecidableEq, Repr

def Timespec.Before (a b : Timespec) : Prop := a.sec < b.sec ∨ a.sec = b.sec ∧ a.nsec < b.nsec

inductive FileType where
  | directory
  | regular
  | symlink
  deriving DecidableEq, Repr

/-- What an entry is. A symbolic link has no permissions of its own. -/
inductive Body where
  | directory (mode : Nat)
  | regular (mode : Nat) (content : List UInt8)
  | symlink (target : String)
  deriving DecidableEq, Repr

/-- Times and owner. -/
structure Attributes where
  atime : Timespec
  mtime : Timespec
  uid : Nat
  gid : Nat
  deriving DecidableEq, Repr

structure Entry where
  body : Body
  attributes : Attributes
  deriving DecidableEq, Repr

namespace Body

def fileType : Body → FileType
  | .directory _ => .directory
  | .regular _ _ => .regular
  | .symlink _ => .symlink

/-- The permissions `lstat` reports. -/
def mode : Body → Nat
  | .directory mode => mode
  | .regular mode _ => mode
  | .symlink _ => 0o777

/-- `fchmodat`; those of a link cannot be changed. -/
def chmod : Body → Nat → Body
  | .directory _, mode => .directory mode
  | .regular _ content, mode => .regular mode content
  | .symlink target, _ => .symlink target

@[simp] theorem fileType_chmod (b : Body) (mode : Nat) : (b.chmod mode).fileType = b.fileType := by
  cases b <;> rfl

@[simp] theorem chmod_chmod (b : Body) (mode mode' : Nat) : (b.chmod mode).chmod mode' = b.chmod mode' := by
  cases b <;> rfl

@[simp] theorem chmod_mode (b : Body) : b.chmod b.mode = b := by
  cases b <;> rfl

/-- Permissions of entries of one type are all changed or all the same. -/
theorem mode_chmod {b b' : Body} (h : b.fileType = b'.fileType) : (b.chmod b'.mode).mode = b'.mode := by
  cases b <;> cases b' <;> first | rfl | cases h

end Body

namespace Entry

def fileType (e : Entry) : FileType := e.body.fileType

def isDir (e : Entry) : Bool := e.fileType = .directory

def mtime (e : Entry) : Timespec := e.attributes.mtime

def withMtime (e : Entry) (t : Timespec) : Entry := { e with attributes := { e.attributes with mtime := t } }

@[simp] theorem isDir_withMtime (e : Entry) (t : Timespec) : (e.withMtime t).isDir = e.isDir := rfl

@[simp] theorem withMtime_mtime (e : Entry) : e.withMtime e.mtime = e := rfl

@[simp] theorem withMtime_withMtime (e : Entry) (t t' : Timespec) : (e.withMtime t).withMtime t' = e.withMtime t' := rfl

end Entry

/-- A tree of files. -/
abbrev Files := Path → Option Entry

namespace Files

variable {D D' E : Files} {p q : Path}

def isDir (D : Files) (p : Path) : Bool := (D p).any Entry.isDir

/-- There is something that is not a directory. -/
def isLeaf (D : Files) (p : Path) : Bool := (D p).any fun e => !e.isDir

/-- Entries are in directories. -/
def Rooted (D : Files) : Prop := ∀ p n, D (p ++ [n]) ≠ none → D.isDir p = true

/-- Something above the path is not a directory. -/
def Blocked (D : Files) (p : Path) : Prop := ∃ q, q <+: p ∧ q ≠ p ∧ D.isLeaf q = true

/-- The same entry, except perhaps for its modification time. -/
def Retimed (e e' : Option Entry) : Prop := ∃ t, e' = e.map (·.withMtime t)

theorem Retimed.refl (e : Option Entry) : Retimed e e := by
  cases e with
  | none => exact ⟨⟨0, 0⟩, rfl⟩
  | some e => exact ⟨e.mtime, rfl⟩

theorem Retimed.trans {e e' e'' : Option Entry} (h : Retimed e e') (h' : Retimed e' e'') : Retimed e e'' := by
  obtain ⟨t, rfl⟩ := h
  obtain ⟨t', rfl⟩ := h'
  exact ⟨t', by cases e <;> rfl⟩

theorem Retimed.isDir (h : Retimed (D p) (D' p)) : D'.isDir p = D.isDir p := by
  obtain ⟨t, ht⟩ := h
  simp only [Files.isDir, ht]
  cases D p <;> rfl

theorem Retimed.isLeaf (h : Retimed (D p) (D' p)) : D'.isLeaf p = D.isLeaf p := by
  obtain ⟨t, ht⟩ := h
  simp only [Files.isLeaf, ht]
  cases D p <;> rfl

theorem not_isLeaf_of_isDir (h : D.isDir p = true) : D.isLeaf p = false := by
  unfold Files.isDir at h
  unfold Files.isLeaf
  cases hp : D p with
  | none => rfl
  | some e => simpa [hp] using h

/-- Nothing is below what is not a directory. -/
theorem none_below (hrooted : ∀ r n, p <+: r → D (r ++ [n]) ≠ none → D.isDir r = true) (hdir : D.isDir p = false)
    (hq : p <+: q) (hne : q ≠ p) : D q = none := by
  obtain ⟨r, rfl⟩ := hq
  induction r using List.reverseRecOn with
  | nil => exact absurd (List.append_nil p) hne
  | append_singleton r n ih =>
    by_contra hsome
    rw [← List.append_assoc] at hsome
    have hr := hrooted (p ++ r) n (List.prefix_append p r) hsome
    by_cases hnil : p ++ r = p
    · rw [hnil, hdir] at hr
      cases hr
    · simp [Files.isDir, ih hnil] at hr

/-- The way to a directory is clear. -/
theorem Rooted.not_blocked (h : D.Rooted) (hdir : D.isDir p = true) : ¬ D.Blocked p := by
  rintro ⟨q, hq, hne, hleaf⟩
  have hq' : D.isDir q = false := by
    by_contra htrue
    rw [not_isLeaf_of_isDir (by simpa using htrue)] at hleaf
    cases hleaf
  have hnone := none_below (fun r n _ => h r n) hq' hq (Ne.symm hne)
  simp [Files.isDir, hnone] at hdir

theorem not_prefix_dropLast (hp : p ≠ []) : ¬ p <+: p.dropLast := fun h => by
  have hlength := h.length_le
  have hpos := List.length_pos_iff.2 hp
  rw [List.length_dropLast] at hlength
  omega

theorem dropLast_ne (hp : p ≠ []) : p.dropLast ≠ p := fun h => by
  have hnot := not_prefix_dropLast hp
  rw [h] at hnot
  exact hnot List.prefix_rfl

/-! ## Entries come and go -/

/-- An entry of the directory at `p` comes or goes at time `t`. -/
def touch (D : Files) (p : Path) (t : Timespec) : Files := Function.update D p ((D p).map (·.withMtime t))

/-- Set what is at `p`; its directory is touched. -/
def put (D : Files) (p : Path) (e : Option Entry) (t : Timespec) : Files :=
  Function.update (if p = [] then D else D.touch p.dropLast t) p e

@[simp] theorem put_self (e : Option Entry) (t : Timespec) : D.put p e t p = e := by
  simp [put]

/-- What is neither in nor around `p` stays. -/
theorem put_other (e : Option Entry) (t : Timespec) (hp : q ≠ p) (hparent : q ≠ p.dropLast) : D.put p e t q = D q := by
  unfold put
  split <;> simp [touch, hp, hparent]

theorem put_parent (e : Option Entry) (t : Timespec) (hp : p ≠ []) :
    Retimed (D p.dropLast) (D.put p e t p.dropLast) := by
  have hne := dropLast_ne hp
  exact ⟨t, by simp [put, touch, hp, hne]⟩

/-- Below `p` everything stays. -/
theorem put_below (e : Option Entry) (t : Timespec) (hq : p <+: q) (hne : q ≠ p) : D.put p e t q = D q := by
  refine put_other e t hne fun hdrop => ?_
  have hp : p ≠ [] := by
    rintro rfl
    exact hne hdrop
  exact not_prefix_dropLast hp (hdrop ▸ hq)

theorem put_isLeaf (e : Option Entry) (t : Timespec) (hq : q ≠ p) : (D.put p e t).isLeaf q = D.isLeaf q := by
  by_cases hparent : q = p.dropLast
  · subst hparent
    have hp : p ≠ [] := by
      rintro rfl
      exact hq rfl
    exact (put_parent e t hp).isLeaf
  · simp only [Files.isLeaf, put_other e t hq hparent]

end Files

end FileTree
