import Mathlib.Data.List.Forall2
import Mathlib.Data.List.GetD
import Mathlib.Data.List.Range
import DarlingServer.Datagram
/-!
# Descriptors through the RPC wrappers

The wrappers that the generator makes for a call send a descriptor as its place in
the `SCM_RIGHTS` array that goes with the message. On the way to the server this
place counts all `@fd` parameters before it, while the array has only those that are
there, and the server takes each one out of the array as it reads it, so the places
of the others move. On the way back the array grows by one descriptor at a time,
into memory that the ones before are not copied to. A call is right if no `@fd`
parameter but its first has a descriptor, a reply if at most one has.
-/

namespace DarlingServer.Wrappers

/-- A parameter of a call or of a reply; for an `@fd` one the value is a descriptor,
or its place when on the wire. -/
structure Param where
  type : ParamType
  value : Int
  deriving DecidableEq

def isFd (p : Param) : Bool := p.type = .fd

/-- What the `@fd` parameters have for a value. -/
def descriptors (params : List Param) : List Int := (params.filter isFd).map Param.value

/-- The array `fds` of a wrapper, up to `valid_fd_count`. -/
def validFds (params : List Param) : List Int := (descriptors params).filter (0 ≤ ·)

/-- The array as it arrives: each slot has got a number of the receiver. -/
def deliver (numbers : Nat → Int) (rights : List Int) : List Int := (List.range rights.length).map numbers

/-! ## The call -/

/-- The body that the client's wrapper sends, with `fd_index` counting. -/
def callBody (fdIndex : Nat) : List Param → List Param
  | [] => []
  | p :: params =>
    if isFd p then { p with value := if p.value < 0 then -1 else fdIndex } :: callBody (fdIndex + 1) params
    else p :: callBody fdIndex params

/-- `Message::extractDescriptorAtIndex`, with the slots from `presentIndex` present ones
on. The index is a `size_t`, so a negative one is beyond all slots. -/
def extractDescriptorAtIndex (presentIndex : Nat) (index : Int) : List Int → Int × List Int
  | [] => (-1, [])
  | fd :: slots =>
    if fd = -1 then
      let r := extractDescriptorAtIndex presentIndex index slots
      (r.1, fd :: r.2)
    else if (presentIndex : Int) ≠ index then
      let r := extractDescriptorAtIndex (presentIndex + 1) index slots
      (r.1, fd :: r.2)
    else (fd, -1 :: slots)

/-- The constructor of the server's call object: its body, and the slots of the request
afterwards. -/
def constructCall : List Param → List Int → List Param × List Int
  | [], slots => ([], slots)
  | p :: body, slots =>
    if isFd p then
      let extracted := extractDescriptorAtIndex 0 p.value slots
      let rest := constructCall body extracted.2
      ({ p with value := extracted.1 } :: rest.1, rest.2)
    else
      let rest := constructCall body slots
      (p :: rest.1, rest.2)

/-- A call as the server gets it. -/
def receiveCall (numbers : Nat → Int) (params : List Param) : List Param :=
  (constructCall (callBody 0 params) (deliver numbers (validFds params))).1

/-! ## The reply -/

/-- `Message::_ensureDescriptorHeader`. The new slots are cleared; the slots before them
have what stands in the memory allocated for `newSpace` slots. -/
def ensureDescriptorHeader (memory : Nat → Nat → Int) (slots : List Int) (newSpace : Nat) : List Int :=
  if slots.length = newSpace then slots
  else (List.range newSpace).map fun i => if i < slots.length then memory newSpace i else -1

def pushDescriptor (memory : Nat → Nat → Int) (slots : List Int) (descriptor : Int) : List Int :=
  match slots.findIdx? (· = -1) with
  | some i => slots.set i descriptor
  | none => (ensureDescriptorHeader memory slots (slots.length + 1)).set slots.length descriptor

/-- `_sendReply`: the body and the slots of the reply. -/
def sendReply (memory : Nat → Nat → Int) (fdIndex : Nat) : List Param → List Int → List Param × List Int
  | [], slots => ([], slots)
  | p :: params, slots =>
    if isFd p then
      if 0 ≤ p.value then
        let rest := sendReply memory (fdIndex + 1) params (pushDescriptor memory slots p.value)
        ({ p with value := fdIndex } :: rest.1, rest.2)
      else
        let rest := sendReply memory fdIndex params slots
        ({ p with value := -1 } :: rest.1, rest.2)
    else
      let rest := sendReply memory fdIndex params slots
      (p :: rest.1, rest.2)

/-- What an out-parameter is set to. -/
def decodeParam (fds : List Int) (p : Param) : Param :=
  if isFd p then { p with value := if 0 ≤ p.value then fds.getD p.value.toNat (-1) else -1 } else p

/-- The client's wrapper on a reply; `none` is the bad message status. -/
def decodeReply (body : List Param) (fds : List Int) : Option (List Param) :=
  if 0 < (validFds body).length ∧ fds.length ≠ (validFds body).length then none
  else some (body.map (decodeParam fds))

/-- The array that goes with a reply. -/
def replyRights (memory : Nat → Nat → Int) (params : List Param) : List Int := (sendReply memory 0 params []).2

/-- A reply as the client gets it. -/
def receiveReply (numbers : Nat → Int) (memory : Nat → Nat → Int) (params : List Param) : Option (List Param) :=
  decodeReply (sendReply memory 0 params []).1 (deliver numbers (replyRights memory params))

/-! ## What it means for descriptors to survive -/

/-- Each parameter has got the number of a slot its own descriptor was sent in, or -1 if
it had none; and each slot has gone to one parameter. -/
structure Survives (numbers : Nat → Int) (rights passed received : List Int) : Prop where
  same : List.Forall₂ (fun p r => if 0 ≤ p then ∃ i, rights[i]? = some p ∧ r = numbers i else r = -1)
    passed received
  once : (received.filter (0 ≤ ·)).Perm (deliver numbers rights)

section

variable {numbers : Nat → Int} {params : List Param} {p : Param}

theorem descriptors_fd (h : isFd p = true) : descriptors (p :: params) = p.value :: descriptors params := by
  simp [descriptors, h]

theorem descriptors_other (h : ¬ isFd p = true) : descriptors (p :: params) = descriptors params := by
  simp [descriptors, h]

theorem validFds_fd (h : isFd p = true) (hp : 0 ≤ p.value) : validFds (p :: params) = p.value :: validFds params := by
  rw [validFds, descriptors_fd h, List.filter_cons_of_pos (by simpa using hp)]
  rfl

theorem validFds_none (h : isFd p = true) (hp : ¬ 0 ≤ p.value) : validFds (p :: params) = validFds params := by
  rw [validFds, descriptors_fd h, List.filter_cons_of_neg (by simpa using hp)]
  rfl

theorem validFds_other (h : ¬ isFd p = true) : validFds (p :: params) = validFds params := by
  rw [validFds, descriptors_other h]
  rfl

theorem validFds_eq_nil (h : ∀ d ∈ descriptors params, d < 0) : validFds params = [] := by
  refine List.filter_eq_nil_iff.mpr fun d hd => ?_
  simpa using h d hd

theorem nonneg_of_mem_validFds {d : Int} (h : d ∈ validFds params) : 0 ≤ d := by
  simpa using (List.mem_filter.mp h).2

/-- With one descriptor at most there is nothing to mix up. -/
theorem survives_of_single (hnumbers : ∀ i, 0 ≤ numbers i) {passed : List Int}
    (hone : (passed.filter (0 ≤ ·)).length ≤ 1) :
    Survives numbers (passed.filter (0 ≤ ·)) passed (passed.map fun p => if 0 ≤ p then numbers 0 else -1) := by
  have hcases : passed.filter (0 ≤ ·) = [] ∨ ∃ q, passed.filter (0 ≤ ·) = [q] := by
    obtain hzero | hone := Nat.le_one_iff_eq_zero_or_eq_one.mp hone
    · exact .inl (List.length_eq_zero_iff.mp hzero)
    · exact .inr (List.length_eq_one_iff.mp hone)
  constructor
  · rw [List.forall₂_map_right_iff, List.forall₂_same]
    intro p hp
    split
    case isTrue hnonneg =>
      have hmem : p ∈ passed.filter (0 ≤ ·) := List.mem_filter.mpr ⟨hp, by simpa using hnonneg⟩
      obtain hnil | ⟨q, hq⟩ := hcases
      · rw [hnil] at hmem
        cases hmem
      · rw [hq, List.mem_singleton] at hmem
        exact ⟨0, by rw [hq, hmem]; rfl, rfl⟩
    case isFalse => rfl
  · have hsame : passed.filter ((fun d => decide (0 ≤ d)) ∘ fun p => if 0 ≤ p then numbers 0 else -1)
        = passed.filter (0 ≤ ·) := by
      refine List.filter_congr fun p _ => ?_
      by_cases hp : 0 ≤ p <;> simp [hp, hnumbers 0]
    rw [List.filter_map, hsame]
    obtain hnil | ⟨q, hq⟩ := hcases
    · rw [hnil]
      exact .nil
    · have hmem : q ∈ passed.filter (0 ≤ ·) := hq ▸ List.mem_singleton_self q
      have hnonneg : 0 ≤ q := by simpa using (List.mem_filter.mp hmem).2
      rw [hq]
      simp [deliver, hnonneg]

/-! ## Calls -/

def present (slots : List Int) : List Int := slots.filter (· ≠ -1)

theorem present_taken (slots : List Int) : present (-1 :: slots) = present slots := rfl

theorem present_cons {fd : Int} (h : fd ≠ -1) (slots : List Int) : present (fd :: slots) = fd :: present slots :=
  List.filter_cons_of_pos (by simpa using h)

theorem extractDescriptorAtIndex_present (m k : Nat) (slots : List Int) :
    (extractDescriptorAtIndex m ↑(m + k) slots).1 = (present slots).getD k (-1) ∧
    present (extractDescriptorAtIndex m ↑(m + k) slots).2 = (present slots).eraseIdx k := by
  induction slots generalizing m k with
  | nil => simp [extractDescriptorAtIndex, present]
  | cons fd slots ih =>
    rw [extractDescriptorAtIndex]
    split
    case isTrue htaken =>
      rw [htaken, present_taken]
      exact ih m k
    case isFalse hfd =>
      rw [present_cons hfd]
      cases k with
      | zero => simp [present_taken]
      | succ k =>
        have hne : (m : Int) ≠ ↑(m + (k + 1)) := by omega
        obtain ⟨hfst, hsnd⟩ := ih (m + 1) k
        rw [Nat.add_right_comm, Nat.add_assoc] at hfst hsnd
        rw [if_pos hne, hfst, present_cons hfd, hsnd]
        exact ⟨rfl, rfl⟩

theorem extractDescriptorAtIndex_neg {index : Int} (h : index < 0) (m : Nat) (slots : List Int) :
    extractDescriptorAtIndex m index slots = (-1, slots) := by
  induction slots generalizing m with
  | nil => rfl
  | cons fd slots ih =>
    have hne : (m : Int) ≠ index := by omega
    rw [extractDescriptorAtIndex, ih, ih, if_pos hne, ite_self]

/-- While nothing was extracted from it, a datagram gives what its slots give. -/
theorem extractDescriptorAtIndex_datagram (d : Datagram) (h : -1 ∉ d.descriptors) (index : Int) :
    d.extractDescriptorAtIndex index = (extractDescriptorAtIndex 0 index d.descriptors).1 := by
  have hall : present d.descriptors = d.descriptors := by
    refine List.filter_eq_self.mpr fun fd hfd => ?_
    simpa using ne_of_mem_of_not_mem hfd h
  by_cases hindex : 0 ≤ index
  · obtain ⟨k, rfl⟩ := Int.eq_ofNat_of_zero_le hindex
    have hk := (extractDescriptorAtIndex_present 0 k d.descriptors).1
    rw [Nat.zero_add, hall] at hk
    rw [hk]
    simp [Datagram.extractDescriptorAtIndex]
  · rw [extractDescriptorAtIndex_neg (by omega)]
    simp [Datagram.extractDescriptorAtIndex, hindex]

theorem present_deliver (hnumbers : ∀ i, 0 ≤ numbers i) (rights : List Int) :
    present (deliver numbers rights) = deliver numbers rights := by
  refine List.filter_eq_self.mpr fun n hn => ?_
  obtain ⟨i, -, rfl⟩ := List.mem_map.mp hn
  have hi := hnumbers i
  simp only [ne_eq, decide_not, Bool.not_eq_true', decide_eq_false_iff_not]
  omega

section

variable {slots : List Int} {k : Nat}

theorem constructCall_other (h : ¬ isFd p = true) :
    descriptors (constructCall (callBody k (p :: params)) slots).1
      = descriptors (constructCall (callBody k params) slots).1 := by
  rw [callBody, if_neg h, constructCall, if_neg h]
  exact descriptors_other h

/-- A parameter without a descriptor leaves the slots alone and keeps its place. -/
theorem constructCall_none (h : isFd p = true) (hp : p.value < 0) :
    descriptors (constructCall (callBody k (p :: params)) slots).1
      = -1 :: descriptors (constructCall (callBody (k + 1) params) slots).1 := by
  have hfd : isFd { p with value := -1 } = true := h
  rw [callBody, if_pos h, if_pos hp, constructCall, if_pos hfd,
    extractDescriptorAtIndex_neg (show (-1 : Int) < 0 by decide)]
  exact descriptors_fd h

theorem constructCall_fd (h : isFd p = true) (hp : 0 ≤ p.value) :
    descriptors (constructCall (callBody k (p :: params)) slots).1
      = (present slots).getD k (-1) ::
        descriptors (constructCall (callBody (k + 1) params) (extractDescriptorAtIndex 0 k slots).2).1 := by
  have hfd : isFd { p with value := ↑k } = true := h
  have hfst := (extractDescriptorAtIndex_present 0 k slots).1
  rw [Nat.zero_add] at hfst
  rw [callBody, if_pos h, if_neg (by omega), constructCall, if_pos hfd, ← hfst]
  exact descriptors_fd h

theorem constructCall_all_none (h : ∀ d ∈ descriptors params, d < 0) :
    descriptors (constructCall (callBody k params) slots).1
      = (descriptors params).map fun d => if 0 ≤ d then numbers 0 else -1 := by
  induction params generalizing k with
  | nil => rfl
  | cons p params ih =>
    by_cases hfd : isFd p
    · rw [descriptors_fd hfd] at h ⊢
      obtain ⟨hp, hrest⟩ := List.forall_mem_cons.mp h
      rw [constructCall_none hfd hp, ih hrest, List.map_cons, if_neg (by omega)]
    · rw [descriptors_other hfd] at h ⊢
      rw [constructCall_other hfd, ih h]

/-- From the second place on, the last descriptor to come is alone in the array and
its place is beyond it. So nothing is lost only if nothing comes. -/
theorem constructCall_lost (hk : 1 ≤ k) (hslots : (present slots).length ≤ (validFds params).length)
    (h : List.Forall₂ (fun p r => 0 ≤ p → 0 ≤ r) (descriptors params)
      (descriptors (constructCall (callBody k params) slots).1)) :
    validFds params = [] := by
  induction params generalizing k slots with
  | nil => rfl
  | cons p params ih =>
    by_cases hfd : isFd p
    · by_cases hp : 0 ≤ p.value
      · rw [descriptors_fd hfd, constructCall_fd hfd hp] at h
        obtain ⟨hhead, hrest⟩ := List.forall₂_cons.mp h
        rw [validFds_fd hfd hp, List.length_cons] at hslots
        have hin : k < (present slots).length := by
          by_contra hout
          rw [List.getD_eq_default _ _ (by omega)] at hhead
          exact absurd (hhead hp) (by decide)
        have hsnd := (extractDescriptorAtIndex_present 0 k slots).2
        rw [Nat.zero_add] at hsnd
        have hnil := ih (Nat.le_add_left 1 k)
          (by rw [hsnd, List.length_eraseIdx_of_lt hin]; omega) hrest
        rw [hnil, List.length_nil] at hslots
        omega
      · rw [descriptors_fd hfd, constructCall_none hfd (by omega)] at h
        rw [validFds_none hfd hp] at hslots ⊢
        exact ih (Nat.le_add_left 1 k) hslots (List.forall₂_cons.mp h).2
    · rw [descriptors_other hfd, constructCall_other hfd] at h
      rw [validFds_other hfd] at hslots ⊢
      exact ih hk hslots h

end

theorem length_deliver (rights : List Int) : (deliver numbers rights).length = rights.length := by
  simp [deliver]

theorem Survives.nonneg (hnumbers : ∀ i, 0 ≤ numbers i) {rights passed received : List Int}
    (h : Survives numbers rights passed received) : List.Forall₂ (fun p r => 0 ≤ p → 0 ≤ r) passed received := by
  refine h.same.imp fun p r hr hp => ?_
  rw [if_pos hp] at hr
  obtain ⟨i, -, rfl⟩ := hr
  exact hnumbers i

theorem lt_zero_of_validFds_eq_nil (h : validFds params = []) : ∀ d ∈ descriptors params, d < 0 := by
  intro d hd
  have hneg := List.filter_eq_nil_iff.mp h d hd
  simpa using hneg

theorem length_validFds_le_one (h : ∀ d ∈ (descriptors params).tail, d < 0) : (validFds params).length ≤ 1 := by
  unfold validFds
  cases hds : descriptors params with
  | nil => exact Nat.zero_le 1
  | cons d ds =>
    rw [hds] at h
    have hnil : ds.filter (0 ≤ ·) = [] := List.filter_eq_nil_iff.mpr fun e he => by simpa using h e he
    rw [List.filter_cons, hnil]
    split
    · exact Nat.le_refl 1
    · exact Nat.zero_le 1

/-- The first `@fd` parameter is read at its place before anything has moved. -/
theorem receiveCall_right (hnumbers : ∀ i, 0 ≤ numbers i) (h : ∀ d ∈ (descriptors params).tail, d < 0) :
    descriptors (receiveCall numbers params)
      = (descriptors params).map fun d => if 0 ≤ d then numbers 0 else -1 := by
  unfold receiveCall
  induction params with
  | nil => rfl
  | cons p params ih =>
    by_cases hfd : isFd p
    · rw [descriptors_fd hfd] at h ⊢
      by_cases hp : 0 ≤ p.value
      · rw [constructCall_fd hfd hp, constructCall_all_none h, validFds_fd hfd hp, validFds_eq_nil h,
          present_deliver hnumbers, List.map_cons, if_pos hp]
        rfl
      · rw [constructCall_none hfd (by omega), constructCall_all_none h, List.map_cons, if_neg hp]
    · rw [descriptors_other hfd] at h ⊢
      rw [constructCall_other hfd, validFds_other hfd, ih h]

theorem receiveCall_wrong (hnumbers : ∀ i, 0 ≤ numbers i)
    (h : List.Forall₂ (fun p r => 0 ≤ p → 0 ≤ r) (descriptors params)
      (descriptors (receiveCall numbers params))) :
    ∀ d ∈ (descriptors params).tail, d < 0 := by
  unfold receiveCall at h
  induction params with
  | nil => exact List.forall_mem_nil _
  | cons p params ih =>
    by_cases hfd : isFd p
    · rw [descriptors_fd hfd]
      refine lt_zero_of_validFds_eq_nil ?_
      by_cases hp : 0 ≤ p.value
      · rw [descriptors_fd hfd, constructCall_fd hfd hp] at h
        refine constructCall_lost (Nat.le_refl _) ?_ (List.forall₂_cons.mp h).2
        have hsnd := (extractDescriptorAtIndex_present 0 0 (deliver numbers (validFds (p :: params)))).2
        rw [Nat.zero_add] at hsnd
        rw [hsnd, present_deliver hnumbers, validFds_fd hfd hp,
          List.length_eraseIdx_of_lt (by simp [length_deliver]), length_deliver]
        exact Nat.le_refl _
      · rw [descriptors_fd hfd, constructCall_none hfd (by omega)] at h
        refine constructCall_lost (Nat.le_refl _) ?_ (List.forall₂_cons.mp h).2
        rw [present_deliver hnumbers, length_deliver, validFds_none hfd hp]
    · rw [descriptors_other hfd] at h ⊢
      rw [constructCall_other hfd, validFds_other hfd] at h
      exact ih h

/-! ## Replies -/

section

variable {memory : Nat → Nat → Int} {slots : List Int} {k : Nat}

theorem sendReply_fd (h : isFd p = true) (hp : 0 ≤ p.value) :
    sendReply memory k (p :: params) slots
      = ({ p with value := k } :: (sendReply memory (k + 1) params (pushDescriptor memory slots p.value)).1,
        (sendReply memory (k + 1) params (pushDescriptor memory slots p.value)).2) := by
  rw [sendReply, if_pos h, if_pos hp]

theorem sendReply_none (h : isFd p = true) (hp : ¬ 0 ≤ p.value) :
    sendReply memory k (p :: params) slots
      = ({ p with value := -1 } :: (sendReply memory k params slots).1, (sendReply memory k params slots).2) := by
  rw [sendReply, if_pos h, if_neg hp]

theorem sendReply_other (h : ¬ isFd p = true) :
    sendReply memory k (p :: params) slots
      = (p :: (sendReply memory k params slots).1, (sendReply memory k params slots).2) := by
  rw [sendReply, if_neg h]

theorem sendReply_snd : (sendReply memory k params slots).2
    = (validFds params).foldl (pushDescriptor memory) slots := by
  induction params generalizing k slots with
  | nil => rfl
  | cons p params ih =>
    by_cases hfd : isFd p
    · by_cases hp : 0 ≤ p.value
      · rw [sendReply_fd hfd hp, validFds_fd hfd hp]
        exact ih
      · rw [sendReply_none hfd hp, validFds_none hfd hp]
        exact ih
    · rw [sendReply_other hfd, validFds_other hfd]
      exact ih

/-- The client counts as many descriptors as there were pushed. -/
theorem length_validFds_sendReply :
    (validFds (sendReply memory k params slots).1).length = (validFds params).length := by
  induction params generalizing k slots with
  | nil => rfl
  | cons p params ih =>
    by_cases hfd : isFd p
    · by_cases hp : 0 ≤ p.value
      · have hplace : isFd { p with value := ↑k } = true := hfd
        rw [sendReply_fd hfd hp, validFds_fd hplace (Int.natCast_nonneg k), validFds_fd hfd hp,
          List.length_cons, List.length_cons, ih]
      · have hplace : isFd { p with value := -1 } = true := hfd
        rw [sendReply_none hfd hp, validFds_none hplace (show ¬ (0 : Int) ≤ -1 by decide),
          validFds_none hfd hp, ih]
    · rw [sendReply_other hfd, validFds_other hfd, validFds_other hfd, ih]

variable {fds : List Int}

theorem decode_fd (h : isFd p = true) (hp : 0 ≤ p.value) :
    descriptors ((sendReply memory k (p :: params) slots).1.map (decodeParam fds))
      = fds.getD k (-1) :: descriptors
        ((sendReply memory (k + 1) params (pushDescriptor memory slots p.value)).1.map (decodeParam fds)) := by
  have hplace : isFd { p with value := ↑k } = true := h
  rw [sendReply_fd h hp, List.map_cons, decodeParam, if_pos hplace, if_pos (Int.natCast_nonneg k)]
  exact descriptors_fd h

theorem decode_none (h : isFd p = true) (hp : ¬ 0 ≤ p.value) :
    descriptors ((sendReply memory k (p :: params) slots).1.map (decodeParam fds))
      = -1 :: descriptors ((sendReply memory k params slots).1.map (decodeParam fds)) := by
  have hplace : isFd { p with value := -1 } = true := h
  rw [sendReply_none h hp, List.map_cons, decodeParam, if_pos hplace, if_neg (show ¬ (0 : Int) ≤ -1 by decide)]
  exact descriptors_fd h

theorem decode_other (h : ¬ isFd p = true) :
    descriptors ((sendReply memory k (p :: params) slots).1.map (decodeParam fds))
      = descriptors ((sendReply memory k params slots).1.map (decodeParam fds)) := by
  rw [sendReply_other h, List.map_cons, decodeParam, if_neg h]
  exact descriptors_other h

/-- With one descriptor at most, all places are the first one. -/
theorem decode_single (h : (validFds params).length ≤ 1) :
    descriptors ((sendReply memory k params slots).1.map (decodeParam fds))
      = (descriptors params).map fun d => if 0 ≤ d then fds.getD k (-1) else -1 := by
  induction params generalizing k slots with
  | nil => rfl
  | cons p params ih =>
    by_cases hfd : isFd p
    · by_cases hp : 0 ≤ p.value
      · rw [validFds_fd hfd hp, List.length_cons] at h
        have hnil : validFds params = [] := List.length_eq_zero_iff.mp (by omega)
        rw [decode_fd hfd hp, ih (by omega), descriptors_fd hfd, List.map_cons, if_pos hp]
        refine congrArg _ (List.map_congr_left fun d hd => ?_)
        have hneg := lt_zero_of_validFds_eq_nil hnil d hd
        rw [if_neg (by omega), if_neg (by omega)]
      · rw [validFds_none hfd hp] at h
        rw [decode_none hfd hp, ih h, descriptors_fd hfd, List.map_cons, if_neg hp]
    · rw [validFds_other hfd] at h
      rw [decode_other hfd, ih h, descriptors_other hfd]

/-- The first descriptor that comes has the next place. -/
theorem decode_first {R : Int → Int → Prop} {first : Int} {others : List Int}
    (hfirst : validFds params = first :: others)
    (h : List.Forall₂ R (descriptors params)
      (descriptors ((sendReply memory k params slots).1.map (decodeParam fds)))) :
    R first (fds.getD k (-1)) := by
  induction params with
  | nil => cases hfirst
  | cons p params ih =>
    by_cases hfd : isFd p
    · rw [descriptors_fd hfd] at h
      by_cases hp : 0 ≤ p.value
      · rw [validFds_fd hfd hp] at hfirst
        obtain ⟨rfl, -⟩ := List.cons.inj hfirst
        rw [decode_fd hfd hp] at h
        exact (List.forall₂_cons.mp h).1
      · rw [validFds_none hfd hp] at hfirst
        rw [decode_none hfd hp] at h
        exact ih hfirst (List.forall₂_cons.mp h).2
    · rw [validFds_other hfd] at hfirst
      rw [descriptors_other hfd, decode_other hfd] at h
      exact ih hfirst h

end

theorem pushDescriptor_nil (memory : Nat → Nat → Int) (d : Int) : pushDescriptor memory [] d = [d] := rfl

/-- Into memory that is full of `g`, a descriptor goes behind as many of these as there
were descriptors before. -/
theorem pushDescriptor_filled {g : Int} {slots : List Int} (hslots : -1 ∉ slots) (d : Int) :
    pushDescriptor (fun _ _ => g) slots d = List.replicate slots.length g ++ [d] := by
  have hnone : slots.findIdx? (· = -1) = none := by
    refine List.findIdx?_eq_none_iff.mpr fun fd hfd => ?_
    simpa using ne_of_mem_of_not_mem hfd hslots
  have hold : (List.range slots.length).map (fun i => if i < slots.length then g else -1)
      = List.replicate slots.length g := by
    rw [List.eq_replicate_iff]
    refine ⟨by simp, fun b hb => ?_⟩
    obtain ⟨i, hi, rfl⟩ := List.mem_map.mp hb
    exact if_pos (List.mem_range.mp hi)
  simp only [pushDescriptor, hnone, ensureDescriptorHeader]
  rw [if_neg (by omega), List.range_succ, List.map_append, hold]
  simp

/-- So the first descriptor is gone as soon as a second one is pushed. -/
theorem pushDescriptors_filled {g : Int} (hg : 0 ≤ g) {slots ds : List Int} (hne : slots ≠ [])
    (hslots : -1 ∉ slots) (hds : ∀ d ∈ ds, 0 ≤ d) (hfirst : ds = [] → slots[0]? = some g) :
    (ds.foldl (pushDescriptor fun _ _ => g) slots)[0]? = some g := by
  induction ds generalizing slots with
  | nil => exact hfirst rfl
  | cons d ds ih =>
    obtain ⟨hd, hrest⟩ := List.forall_mem_cons.mp hds
    rw [List.foldl_cons, pushDescriptor_filled hslots]
    have hlength := List.length_pos_iff.mpr hne
    refine ih (by simp) ?_ hrest fun _ => ?_
    · simp only [List.mem_append, List.mem_replicate, List.mem_singleton]
      omega
    · rw [List.getElem?_append_left (by simpa using hlength), List.getElem?_replicate, if_pos hlength]

theorem receiveReply_right (hnumbers : ∀ i, 0 ≤ numbers i) (memory : Nat → Nat → Int)
    (h : (validFds params).length ≤ 1) :
    ∃ out, receiveReply numbers memory params = some out ∧
      Survives numbers (replyRights memory params) (descriptors params) (descriptors out) := by
  have hrights : replyRights memory params = validFds params := by
    rw [replyRights, sendReply_snd]
    obtain hzero | hone := Nat.le_one_iff_eq_zero_or_eq_one.mp h
    · rw [List.length_eq_zero_iff.mp hzero]
      rfl
    · obtain ⟨d, hd⟩ := List.length_eq_one_iff.mp hone
      rw [hd]
      exact pushDescriptor_nil memory d
  refine ⟨_, if_neg ?_, ?_⟩
  · rw [length_deliver, hrights, length_validFds_sendReply]
    simp
  · rw [decode_single h, hrights]
    have hplace : (descriptors params).map
          (fun d => if 0 ≤ d then (deliver numbers (validFds params)).getD 0 (-1) else -1)
        = (descriptors params).map fun d => if 0 ≤ d then numbers 0 else -1 := by
      refine List.map_congr_left fun d hd => ?_
      split
      case isTrue hp =>
        have hmem : d ∈ validFds params := List.mem_filter.mpr ⟨hd, by simpa using hp⟩
        have hpos := List.length_pos_of_mem hmem
        simp [deliver, List.getD, hpos]
      case isFalse => rfl
    rw [hplace]
    exact survives_of_single hnumbers h

/-- A reply with two descriptors is wrong if the memory for the second is full of
some number that is not the first descriptor. -/
theorem receiveReply_wrong (hinj : Function.Injective numbers) (h : 2 ≤ (validFds params).length) :
    ∃ memory, ∀ out, receiveReply numbers memory params = some out →
      ¬ Survives numbers (replyRights memory params) (descriptors params) (descriptors out) := by
  obtain ⟨first, second, others, hfds⟩ : ∃ first second others, validFds params = first :: second :: others := by
    match hfds : validFds params, h with
    | first :: second :: others, _ => exact ⟨first, second, others, rfl⟩
  have hnonneg : ∀ d ∈ validFds params, 0 ≤ d := fun d => nonneg_of_mem_validFds
  rw [hfds] at hnonneg
  obtain ⟨hfirst, hothers⟩ := List.forall_mem_cons.mp hnonneg
  refine ⟨fun _ _ => first + 1, fun out hout hs => ?_⟩
  have hslot : (replyRights (fun _ _ => first + 1) params)[0]? = some (first + 1) := by
    rw [replyRights, sendReply_snd, hfds, List.foldl_cons, pushDescriptor_nil]
    refine pushDescriptors_filled (by omega) (List.cons_ne_nil _ _) ?_ hothers (fun hnil => by cases hnil)
    simp only [List.mem_singleton]
    omega
  have hplace : (deliver numbers (replyRights (fun _ _ => first + 1) params)).getD 0 (-1) = numbers 0 := by
    have hpos := (List.getElem?_eq_some_iff.mp hslot).1
    simp [deliver, List.getD, hpos]
  have hdecoded : out = (sendReply (fun _ _ => first + 1) 0 params []).1.map
      (decodeParam (deliver numbers (replyRights (fun _ _ => first + 1) params))) := by
    unfold receiveReply decodeReply at hout
    split at hout
    · cases hout
    · exact (Option.some.inj hout).symm
  rw [hdecoded] at hs
  have hcarried := decode_first hfds hs.same
  rw [if_pos hfirst, hplace] at hcarried
  obtain ⟨i, hi, hnumber⟩ := hcarried
  rw [← hinj hnumber, hslot] at hi
  have := Option.some.inj hi
  omega

/-! ## Both ways -/

/-- The descriptors of a call survive exactly if none but the first of its `@fd`
parameters has one. Those of a reply survive, whatever the memory it is built in
holds, exactly if at most one parameter has one. -/
theorem descriptors_survive_iff (hinj : Function.Injective numbers) (hnumbers : ∀ i, 0 ≤ numbers i)
    (call reply : List Param) :
    (Survives numbers (validFds call) (descriptors call) (descriptors (receiveCall numbers call)) ↔
      ∀ d ∈ (descriptors call).tail, d < 0) ∧
    ((∀ memory, ∃ out, receiveReply numbers memory reply = some out ∧
        Survives numbers (replyRights memory reply) (descriptors reply) (descriptors out)) ↔
      (validFds reply).length ≤ 1) := by
  refine ⟨⟨fun hs => receiveCall_wrong hnumbers (hs.nonneg hnumbers), fun h => ?_⟩, fun hs => ?_, fun h memory => ?_⟩
  · rw [receiveCall_right hnumbers h]
    exact survives_of_single hnumbers (length_validFds_le_one h)
  · by_contra hmany
    have htwo : 2 ≤ (validFds reply).length := by omega
    obtain ⟨memory, hwrong⟩ := receiveReply_wrong hinj htwo
    obtain ⟨out, hout, hsurvives⟩ := hs memory
    exact hwrong out hout hsurvives
  · exact receiveReply_right hnumbers memory h

/-- A receiver whose next descriptor is 10. -/
def fromTen (i : Nat) : Int := i + 10

theorem fromTen_injective : Function.Injective fromTen := by
  intro i j h
  unfold fromTen at h
  omega

theorem fromTen_nonneg (i : Nat) : 0 ≤ fromTen i := by
  unfold fromTen
  omega

theorem descriptors_survive_single :
    Survives fromTen [5] [5, -3] (descriptors (receiveCall fromTen [⟨.fd, 5⟩, ⟨.int32, 7⟩, ⟨.fd, -3⟩])) ∧
    ∀ memory, ∃ out, receiveReply fromTen memory [⟨.fd, -1⟩, ⟨.fd, 6⟩] = some out ∧
      Survives fromTen (replyRights memory [⟨.fd, -1⟩, ⟨.fd, 6⟩]) [-1, 6] (descriptors out) := by
  have hiff := descriptors_survive_iff fromTen_injective fromTen_nonneg
    [⟨.fd, 5⟩, ⟨.int32, 7⟩, ⟨.fd, -3⟩] [⟨.fd, -1⟩, ⟨.fd, 6⟩]
  exact ⟨hiff.1.mpr (by decide), hiff.2.mpr (by decide)⟩

/-- Of two descriptors in a call the second is not found any more, and of two in a
reply the first is what stood in the memory for both. -/
theorem second_descriptor_fails :
    ¬ Survives fromTen [5, 6] [5, 6] (descriptors (receiveCall fromTen [⟨.fd, 5⟩, ⟨.fd, 6⟩])) ∧
    ¬ ∃ out, receiveReply fromTen (fun _ _ => 0) [⟨.fd, 5⟩, ⟨.fd, 6⟩] = some out ∧
      Survives fromTen (replyRights (fun _ _ => 0) [⟨.fd, 5⟩, ⟨.fd, 6⟩]) [5, 6] (descriptors out) := by
  constructor
  · intro hs
    have hgot : descriptors (receiveCall fromTen [⟨.fd, 5⟩, ⟨.fd, 6⟩]) = [10, -1] := by decide
    rw [hgot] at hs
    exact absurd hs.once.length_eq (by decide)
  · rintro ⟨out, hout, hs⟩
    have hrights : replyRights (fun _ _ => 0) [⟨.fd, 5⟩, ⟨.fd, 6⟩] = [0, 6] := by decide
    have hgot : receiveReply fromTen (fun _ _ => 0) [⟨.fd, 5⟩, ⟨.fd, 6⟩] = some [⟨.fd, 10⟩, ⟨.fd, 11⟩] := by decide
    rw [hgot] at hout
    rw [← Option.some.inj hout, hrights] at hs
    obtain ⟨i, hi, hnumber⟩ := (List.forall₂_cons.mp hs.same).1
    rw [← fromTen_injective (show fromTen 0 = fromTen i from hnumber)] at hi
    exact absurd hi (by decide)

example : descriptors (receiveCall fromTen [⟨.fd, 5⟩, ⟨.fd, 6⟩, ⟨.fd, 7⟩]) = [10, 12, -1] := by decide

end

end DarlingServer.Wrappers
