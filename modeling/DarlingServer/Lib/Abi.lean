import DarlingServer.Lib.Layout
/-!
# Structures under two ABIs

The i386 and the x86-64 System V ABI agree on the sizes of the integers and
differ in one alignment: a 64-bit integer within a structure is aligned to four
bytes on i386. So one declaration may have two layouts. What is written under one
and read under the other comes back for all values exactly if the fields stand at
the same offsets (`reads_back`, `fields_eq_of_reads_back`).
-/

namespace Layout

inductive Abi where
  | i386
  | x8664
  deriving DecidableEq, Repr

inductive Scalar where
  | bool
  | int8
  | uint8
  | int16
  | uint16
  | int32
  | uint32
  | int64
  | uint64
  deriving DecidableEq, Repr

def Scalar.size : Scalar → Nat
  | .bool | .int8 | .uint8 => 1
  | .int16 | .uint16 => 2
  | .int32 | .uint32 => 4
  | .int64 | .uint64 => 8

def Abi.align (abi : Abi) (s : Scalar) : Nat :=
  match abi with
  | .i386 => min s.size 4
  | .x8664 => s.size

/-- A scalar member as it is declared; `aligned` is the value of the attribute,
zero if there is none. -/
structure Decl where
  scalar : Scalar
  aligned : Nat := 0
  deriving DecidableEq, Repr

/-- The attribute can only raise the alignment. -/
def Decl.member (abi : Abi) (d : Decl) : Member := ⟨d.scalar.size, max (abi.align d.scalar) d.aligned⟩

/-- A member of a structure: a scalar, or a structure of scalars. -/
inductive Item where
  | one (d : Decl)
  | record (ds : List Decl)
  deriving DecidableEq, Repr

def Item.decls : Item → List Decl
  | .one d => [d]
  | .record ds => ds

def Item.member (abi : Abi) : Item → Member
  | .one d => d.member abi
  | .record ds => asMember (ds.map (Decl.member abi))

/-- The scalars of a member that stands at `offset`. -/
def Item.fieldsAt (abi : Abi) (offset : Nat) : Item → List Field
  | .one d => [⟨offset, d.scalar.size⟩]
  | .record ds => (fields 0 (ds.map (Decl.member abi))).map fun f => ⟨offset + f.offset, f.size⟩

/-- The scalars of a structure, those of its inner structures included. -/
def scalarFields (abi : Abi) (items : List Item) : List Field :=
  (items.zip (fields 0 (items.map (Item.member abi)))).flatMap fun p => p.1.fieldsAt abi p.2.offset

def sizeof (abi : Abi) (items : List Item) : Nat := size (items.map (Item.member abi))

/-! ## The sizes of the scalars -/

theorem Scalar.size_pos (s : Scalar) : 0 < s.size := by
  cases s <;> decide

theorem fields_size (start : Nat) (ms : List Member) : (fields start ms).map Field.size = ms.map Member.size := by
  induction ms generalizing start with
  | nil => rfl
  | cons m ms ih => simp [fields, ih]

theorem Item.fieldsAt_size (abi : Abi) (offset : Nat) (item : Item) :
    (item.fieldsAt abi offset).map Field.size = item.decls.map fun d => d.scalar.size := by
  cases item with
  | one d => rfl
  | record ds =>
    have h := fields_size 0 (ds.map (Decl.member abi))
    rw [List.map_map] at h
    rw [Item.fieldsAt, List.map_map]
    exact h

/-- The scalars are those of the declarations, whatever their offsets. -/
theorem scalarFields_size (abi : Abi) (items : List Item) :
    (scalarFields abi items).map Field.size = (items.flatMap Item.decls).map fun d => d.scalar.size := by
  unfold scalarFields
  generalize 0 = start
  induction items generalizing start with
  | nil => rfl
  | cons item items ih =>
    simp only [List.map_cons, fields, List.zip_cons_cons, List.flatMap_cons, List.map_append, ih,
      Item.fieldsAt_size]

theorem scalarFields_size_pos (abi : Abi) (items : List Item) : ∀ f ∈ scalarFields abi items, 0 < f.size := by
  intro f hf
  have hmem : f.size ∈ (scalarFields abi items).map Field.size := List.mem_map_of_mem hf
  rw [scalarFields_size] at hmem
  obtain ⟨d, -, hd⟩ := List.mem_map.1 hmem
  exact hd ▸ d.scalar.size_pos

/-! ## Declarations with one layout -/

theorem Decl.member_eq {d : Decl} (h : d.scalar.size ≤ 4 ∨ d.scalar.size ≤ d.aligned) (abi : Abi) :
    d.member abi = d.member .x8664 := by
  unfold Decl.member
  congr 1
  cases abi with
  | i386 =>
    show max (min d.scalar.size 4) d.aligned = max d.scalar.size d.aligned
    omega
  | x8664 => rfl

section

variable {abi : Abi}

theorem map_member_eq {ds : List Decl} (h : ∀ d ∈ ds, d.member abi = d.member .x8664) :
    ds.map (Decl.member abi) = ds.map (Decl.member .x8664) := List.map_congr_left h

theorem Item.member_eq {item : Item} (h : ∀ d ∈ item.decls, d.member abi = d.member .x8664) :
    item.member abi = item.member .x8664 := by
  cases item with
  | one d => exact h d (List.mem_singleton_self d)
  | record ds => exact congrArg asMember (map_member_eq h)

theorem Item.fieldsAt_eq {item : Item} (h : ∀ d ∈ item.decls, d.member abi = d.member .x8664) (offset : Nat) :
    item.fieldsAt abi offset = item.fieldsAt .x8664 offset := by
  cases item with
  | one d => rfl
  | record ds =>
    have hds : ds.map (Decl.member abi) = ds.map (Decl.member .x8664) := map_member_eq h
    simp only [Item.fieldsAt, hds]

variable {items : List Item} (h : ∀ item ∈ items, ∀ d ∈ item.decls, d.member abi = d.member .x8664)

include h

theorem items_member_eq : items.map (Item.member abi) = items.map (Item.member .x8664) :=
  List.map_congr_left fun item hi => Item.member_eq (h item hi)

theorem sizeof_eq : sizeof abi items = sizeof .x8664 items := by
  unfold sizeof
  rw [items_member_eq h]

/-- A structure whose scalars all have one alignment has one layout. -/
theorem scalarFields_eq : scalarFields abi items = scalarFields .x8664 items := by
  unfold scalarFields
  rw [items_member_eq h, List.flatMap_def, List.flatMap_def]
  congr 1
  apply List.map_congr_left
  intro p hp
  exact Item.fieldsAt_eq (h p.1 (List.of_mem_zip hp).1) _

end

/-! ## Writing and reading -/

def Field.Has (f : Field) (i : Nat) : Prop := f.offset ≤ i ∧ i < f.stop

instance (f : Field) (i : Nat) : Decidable (f.Has i) := inferInstanceAs (Decidable (_ ∧ _))

/-- Memory in which fields hold the bytes of their values; between them lies what
`padding` has there. -/
def image (padding : Nat → UInt8) : List (Field × List UInt8) → Nat → UInt8
  | [], i => padding i
  | (f, v) :: rest, i => if f.Has i then v.getD (i - f.offset) 0 else image padding rest i

def Field.read (mem : Nat → UInt8) (f : Field) : List UInt8 :=
  (List.range f.size).map fun j => mem (f.offset + j)

/-- What a receiver finds in its buffer: the message, and after it what was there before. -/
def received (message : List UInt8) (stale : Nat → UInt8) (i : Nat) : UInt8 := message.getD i (stale i)

/-- The bytes of a structure of `size` bytes. -/
def written (size : Nat) (fs : List Field) (values : List (List UInt8)) (padding : Nat → UInt8) : List UInt8 :=
  (List.range size).map (image padding (fs.zip values))

@[simp] theorem length_written (size : Nat) (fs : List Field) (values : List (List UInt8)) (padding : Nat → UInt8) :
    (written size fs values padding).length = size := by
  simp [written]

theorem Field.read_congr {mem mem' : Nat → UInt8} {f : Field} (h : ∀ i, f.Has i → mem i = mem' i) :
    f.read mem = f.read mem' := by
  apply List.map_congr_left
  intro j hj
  have := List.mem_range.1 hj
  exact h _ ⟨by omega, by unfold Field.stop; omega⟩

theorem received_written {size i : Nat} (h : i < size) (fs : List Field) (values : List (List UInt8))
    (padding stale : Nat → UInt8) :
    received (written size fs values padding) stale i = image padding (fs.zip values) i := by
  simp [received, written, List.getD, h]

/-- The fields stand one after the other. -/
def Ordered (fs : List Field) : Prop := fs.Pairwise fun f g => f.stop ≤ g.offset

instance (fs : List Field) : Decidable (Ordered fs) := inferInstanceAs (Decidable (fs.Pairwise _))

theorem Field.read_image_cons (padding : Nat → UInt8) {f : Field} {v : List UInt8} (hv : v.length = f.size)
    (rest : List (Field × List UInt8)) : f.read (image padding ((f, v) :: rest)) = v := by
  apply List.ext_getElem
  · simp [Field.read, hv]
  · intro j hj hj'
    have hin : f.Has (f.offset + j) := ⟨by omega, by unfold Field.stop; omega⟩
    simp [Field.read, image, hin, List.getD, hj']

/-- What was written into ordered fields is read back from them. -/
theorem read_image (padding : Nat → UInt8) {fs : List Field} {values : List (List UInt8)} (ho : Ordered fs)
    (hl : values.map List.length = fs.map Field.size) :
    fs.map (Field.read (image padding (fs.zip values))) = values := by
  induction fs generalizing values with
  | nil => simpa using hl.symm
  | cons f fs ih =>
    cases values with
    | nil => simp at hl
    | cons v values =>
      simp only [List.map_cons, List.cons.injEq] at hl
      obtain ⟨hlt, ho⟩ := List.pairwise_cons.1 ho
      rw [List.zip_cons_cons, List.map_cons, Field.read_image_cons padding hl.1]
      congr 1
      -- the later fields lie past the first one, where the image is that of the rest
      refine Eq.trans (List.map_congr_left fun g hg => Field.read_congr fun i hi => ?_) (ih ho hl.2)
      have hout : ¬ f.Has i := fun hf => by
        have := hlt g hg
        have := hf.2
        have := hi.1
        omega
      simp [image, hout]

theorem image_ne_zero {padding : Nat → UInt8} {l : List (Field × List UInt8)} {i : Nat}
    (h : image padding l i ≠ 0) :
    padding i ≠ 0 ∨ ∃ p ∈ l, p.1.Has i ∧ ∃ b ∈ p.2, b ≠ 0 := by
  induction l with
  | nil => exact .inl h
  | cons p l ih =>
    obtain ⟨f, v⟩ := p
    simp only [image] at h
    split at h
    · rename_i hin
      refine .inr ⟨(f, v), List.mem_cons_self .., hin, v.getD (i - f.offset) 0, ?_, h⟩
      by_cases hlt : i - f.offset < v.length
      · simp [List.getD, hlt]
      · simp [List.getD, hlt] at h
    · rcases ih h with h | ⟨q, hq, hin, hb⟩
      · exact .inl h
      · exact .inr ⟨q, List.mem_cons_of_mem _ hq, hin, hb⟩

/-- Ones in the field numbered `k`, zeros elsewhere. -/
def marked (k : Nat) (fs : List Field) : List (List UInt8) :=
  fs.mapIdx fun i f => List.replicate f.size (if i = k then 1 else 0)

theorem marked_length (k : Nat) (fs : List Field) : (marked k fs).map List.length = fs.map Field.size := by
  apply List.ext_getElem
  · simp [marked]
  · intro i h h'
    simp [marked]

theorem image_marked {k i : Nat} {fs : List Field} (h : image (fun _ => 0) (fs.zip (marked k fs)) i ≠ 0) :
    ∃ hk : k < fs.length, fs[k].Has i := by
  rcases image_ne_zero h with h | ⟨p, hp, hin, b, hb, hb0⟩
  · exact absurd rfl h
  · obtain ⟨j, hj, rfl⟩ := List.mem_iff_getElem.1 hp
    simp only [List.length_zip, marked, List.length_mapIdx] at hj
    simp only [List.getElem_zip, marked, List.getElem_mapIdx, List.mem_replicate] at hin hb
    have hjk : j = k := by
      by_contra hne
      simp [hne] at hb
      exact hb0 hb.2
    subst hjk
    exact ⟨by omega, hin⟩

/-- A field that reads the mark is the field the mark was written to. -/
theorem offset_eq_of_marked {k : Nat} {fs : List Field} {mem : Nat → UInt8} {g : Field} (hk : k < fs.length)
    (hmem : ∀ i, mem i ≠ 0 → fs[k].Has i) (hg : g.size = fs[k].size) (hpos : 0 < g.size)
    (h : g.read mem = List.replicate g.size 1) : g.offset = fs[k].offset := by
  have hone : ∀ j < g.size, fs[k].Has (g.offset + j) := by
    intro j hj
    have hj' := congrArg (fun l => l.getD j 0) h
    simp only [Field.read, List.getD, List.getElem?_map, List.getElem?_range hj, Option.map_some, Option.getD_some,
      List.getElem?_replicate_of_lt hj] at hj'
    apply hmem
    rw [hj']
    decide
  have hfirst := (hone 0 hpos).1
  have hlast := (hone (g.size - 1) (by omega)).2
  unfold Field.stop at hlast
  omega

section

variable {size : Nat} {fw fr : List Field} (ho : Ordered fw) (hin : ∀ f ∈ fw, f.stop ≤ size)
  (hsz : fr.map Field.size = fw.map Field.size) (hpos : ∀ f ∈ fw, 0 < f.size)

include ho hin in
theorem reads_back {values : List (List UInt8)} (hl : values.map List.length = fw.map Field.size)
    (padding stale : Nat → UInt8) :
    fw.map (Field.read (received (written size fw values padding) stale)) = values := by
  refine Eq.trans (List.map_congr_left fun f hf => Field.read_congr fun i hi => ?_) (read_image padding ho hl)
  exact received_written (Nat.lt_of_lt_of_le hi.2 (hin f hf)) ..

include hsz hpos in
/-- A reader that gets every value back has its fields where the writer has them. -/
theorem fields_eq_of_reads_back
    (h : ∀ k, fr.map (Field.read (received (written size fw (marked k fw) fun _ => 0) fun _ => 0)) = marked k fw) :
    fr = fw := by
  have hlen : fr.length = fw.length := by simpa using congrArg List.length hsz
  apply List.ext_getElem hlen
  intro k hkr hk
  have hsk : fr[k].size = fw[k].size := by
    have := congrArg (fun l => l[k]?) hsz
    simpa [hkr, hk] using this
  have hread := congrArg (fun l => l[k]?) (h k)
  simp only [List.getElem?_map, List.getElem?_eq_getElem hkr, Option.map_some, marked, List.getElem?_mapIdx,
    List.getElem?_eq_getElem hk, if_true, Option.some.injEq] at hread
  rw [← hsk] at hread
  -- outside the written structure the reader sees zeros, so what is not zero lies in the marked field
  have hmem : ∀ i, received (written size fw (marked k fw) fun _ => 0) (fun _ => 0) i ≠ 0 → fw[k].Has i := by
    intro i hi
    by_cases hlt : i < size
    · rw [received_written hlt] at hi
      exact (image_marked hi).2
    · simp [received, written, List.getD, hlt] at hi
  have hoff := offset_eq_of_marked hk hmem hsk (by rw [hsk]; exact hpos _ (List.getElem_mem hk)) hread
  cases hf : fr[k]
  cases hg : fw[k]
  simp_all

end

end Layout
