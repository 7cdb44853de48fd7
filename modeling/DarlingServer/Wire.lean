import DarlingServer.Thread
import DarlingServer.Lib.Layout
/-!
# Calls on the wire

The interface of the server as the wrapper generator lists it: each call with its
parameters, from which the number and the structure of its datagram follow.
-/

namespace DarlingServer

open Layout

inductive ParamType where
  | bool
  | int32
  | uint32
  | int64
  | uint64
  | fd
  deriving DecidableEq, Repr

/-- Eight-byte types are aligned to eight bytes on every architecture. -/
def ParamType.member : ParamType → Member
  | .bool => ⟨1, 1⟩
  | .int32 | .uint32 | .fd => ⟨4, 4⟩
  | .int64 | .uint64 => ⟨8, 8⟩

structure CallSpec where
  name : String
  params : List ParamType
  xnuTrap : Bool
  unmanaged : Bool
  deriving DecidableEq, Repr

def calls : List CallSpec :=
  [ ⟨"checkin", [.bool, .uint64, .fd], false, false⟩,
    ⟨"checkout", [.fd, .bool], false, false⟩,
    ⟨"vchroot_path", [.uint64, .uint64], false, false⟩,
    ⟨"kprintf", [.uint64, .uint64], false, false⟩,
    ⟨"started_suspended", [], false, false⟩,
    ⟨"get_tracer", [], false, false⟩,
    ⟨"uidgid", [.int32, .int32], false, false⟩,
    ⟨"set_thread_handles", [.uint64, .uint64], false, false⟩,
    ⟨"vchroot", [.fd], false, false⟩,
    ⟨"mldr_path", [.uint64, .uint64], false, false⟩,
    ⟨"fork_wait_for_child", [], false, false⟩,
    ⟨"sigprocess", [.int32, .int32, .int32, .int32, .uint64, .uint64, .uint64], false, false⟩,
    ⟨"task_is_64_bit", [.int32], false, false⟩,
    ⟨"interrupt_enter", [], false, false⟩,
    ⟨"interrupt_exit", [], false, false⟩,
    ⟨"console_open", [], false, false⟩,
    ⟨"set_dyld_info", [.uint64, .uint64], false, false⟩,
    ⟨"stop_after_exec", [], false, false⟩,
    ⟨"set_tracer", [.int32, .int32], false, false⟩,
    ⟨"tid_for_thread", [.uint32], false, false⟩,
    ⟨"ptrace_sigexc", [.int32, .bool], false, false⟩,
    ⟨"ptrace_thupdate", [.int32, .int32], false, false⟩,
    ⟨"thread_suspended", [.uint64, .uint64], false, false⟩,
    ⟨"s2c_perform", [], false, false⟩,
    ⟨"set_executable_path", [.uint64, .uint64], false, false⟩,
    ⟨"get_executable_path", [.int32, .uint64, .uint64], false, false⟩,
    ⟨"groups", [.uint64, .uint64, .uint64, .uint64], false, false⟩,
    ⟨"kqchan_mach_port_open", [.uint32, .uint64, .uint64, .uint64], false, false⟩,
    ⟨"kqchan_proc_open", [.int32, .uint32], false, false⟩,
    ⟨"pthread_kill", [.uint32, .int32], false, false⟩,
    ⟨"pthread_canceled", [.int32], false, false⟩,
    ⟨"pthread_markcancel", [.uint32], false, false⟩,
    ⟨"task_self_trap", [], false, false⟩,
    ⟨"host_self_trap", [], false, false⟩,
    ⟨"thread_self_trap", [], false, false⟩,
    ⟨"mach_reply_port", [], false, false⟩,
    ⟨"thread_get_special_reply_port", [], false, false⟩,
    ⟨"mach_msg_overwrite", [.uint64, .int32, .uint32, .uint32, .uint32, .uint32, .uint32, .uint64], true, false⟩,
    ⟨"mach_port_deallocate", [.uint32, .uint32], true, false⟩,
    ⟨"mach_port_allocate", [.uint32, .int32, .uint64], true, false⟩,
    ⟨"mach_port_mod_refs", [.uint32, .uint32, .int32, .int32], true, false⟩,
    ⟨"mach_port_move_member", [.uint32, .uint32, .uint32], true, false⟩,
    ⟨"mach_port_insert_right", [.uint32, .uint32, .uint32, .int32], true, false⟩,
    ⟨"mach_port_insert_member", [.uint32, .uint32, .uint32], true, false⟩,
    ⟨"mach_port_extract_member", [.uint32, .uint32, .uint32], true, false⟩,
    ⟨"mach_port_construct", [.uint32, .uint64, .uint64, .uint64], true, false⟩,
    ⟨"mach_port_destruct", [.uint32, .uint32, .int32, .uint64], true, false⟩,
    ⟨"mach_port_guard", [.uint32, .uint32, .uint64, .bool], true, false⟩,
    ⟨"mach_port_unguard", [.uint32, .uint32, .uint64], true, false⟩,
    ⟨"mach_port_request_notification", [.uint32, .uint32, .int32, .uint32, .uint32, .uint32, .uint64], true, false⟩,
    ⟨"mach_port_get_attributes", [.uint32, .uint32, .int32, .uint64, .uint64], true, false⟩,
    ⟨"mach_port_type", [.uint32, .uint32, .uint64], true, false⟩,
    ⟨"task_for_pid", [.uint32, .int32, .uint64], true, false⟩,
    ⟨"task_name_for_pid", [.uint32, .int32, .uint64], true, false⟩,
    ⟨"pid_for_task", [.uint32, .uint64], true, false⟩,
    ⟨"mach_vm_allocate", [.uint32, .uint64, .uint64, .int32], true, false⟩,
    ⟨"mach_vm_deallocate", [.uint32, .uint64, .uint64], true, false⟩,
    ⟨"semaphore_signal", [.uint32], true, false⟩,
    ⟨"semaphore_signal_all", [.uint32], true, false⟩,
    ⟨"semaphore_wait", [.uint32], true, false⟩,
    ⟨"semaphore_wait_signal", [.uint32, .uint32], true, false⟩,
    ⟨"semaphore_timedwait", [.uint32, .uint32, .uint32], true, false⟩,
    ⟨"semaphore_timedwait_signal", [.uint32, .uint32, .uint32, .uint32], true, false⟩,
    ⟨"mk_timer_create", [], false, false⟩,
    ⟨"mk_timer_destroy", [.uint32], true, false⟩,
    ⟨"mk_timer_arm", [.uint32, .uint64], true, false⟩,
    ⟨"mk_timer_cancel", [.uint32, .uint64], true, false⟩,
    ⟨"psynch_cvbroad", [.uint64, .uint64, .uint64, .uint32, .uint64, .uint64, .uint64], true, false⟩,
    ⟨"psynch_cvclrprepost", [.uint64, .uint32, .uint32, .uint32, .uint32, .uint32, .uint32], true, false⟩,
    ⟨"psynch_cvsignal", [.uint64, .uint64, .uint32, .int32, .uint64, .uint64, .uint64, .uint32], true, false⟩,
    ⟨"psynch_cvwait", [.uint64, .uint64, .uint32, .uint64, .uint64, .uint32, .int64, .uint32], true, false⟩,
    ⟨"psynch_mutexdrop", [.uint64, .uint32, .uint32, .uint64, .uint32], true, false⟩,
    ⟨"psynch_mutexwait", [.uint64, .uint32, .uint32, .uint64, .uint32], true, false⟩,
    ⟨"psynch_rw_rdlock", [.uint64, .uint32, .uint32, .uint32, .int32], true, false⟩,
    ⟨"psynch_rw_unlock", [.uint64, .uint32, .uint32, .uint32, .int32], true, false⟩,
    ⟨"psynch_rw_wrlock", [.uint64, .uint32, .uint32, .uint32, .int32], true, false⟩,
    ⟨"debug_list_processes", [], false, true⟩,
    ⟨"debug_list_ports", [.uint32], false, true⟩,
    ⟨"debug_list_members", [.uint32, .uint32], false, true⟩,
    ⟨"debug_list_messages", [.uint32, .uint32], false, true⟩ ]

/-- `DSERVER_CALL_UNMANAGED_FLAG`. -/
def unmanagedFlag : Nat := 0x80000000

/-- `dserver_callnum_s2c`. -/
def callnumS2C : Nat := 0x52cca11

/-- `dserver_callnum_push_reply`. -/
def callnumPushReply : Nat := 0xbadca11

def CallSpec.callnum (spec : CallSpec) (index : Nat) : Nat :=
  (if spec.unmanaged then unmanagedFlag else 0) + (index + 1)

/-- What a call number announces. -/
inductive Announced where
  | s2c
  | pushReply
  | call (spec : CallSpec) (index : Nat)
  deriving DecidableEq, Repr

/-- The two switches over the call number. -/
def announced (number : Nat) : Option Announced :=
  if number = callnumS2C then some .s2c
  else if number = callnumPushReply then some .pushReply
  else (calls.zipIdx.find? fun c => c.1.callnum c.2 = number).map fun c => .call c.1 c.2

/-- The places of the calls that are told apart here. -/
def checkinIndex : Nat := 0
def checkoutIndex : Nat := 1
def sigprocessIndex : Nat := 11
def interruptEnterIndex : Nat := 13
def interruptExitIndex : Nat := 14
def ptraceThupdateIndex : Nat := 21

example : ([checkinIndex, checkoutIndex, sigprocessIndex, interruptEnterIndex, interruptExitIndex,
    ptraceThupdateIndex].map fun i => (calls[i]?.map CallSpec.name)) =
    ["checkin", "checkout", "sigprocess", "interrupt_enter", "interrupt_exit", "ptrace_thupdate"].map some := rfl

/-- The call's number as the scheduler tells it from others. -/
def CallSpec.number (spec : CallSpec) (index : Nat) : Number :=
  if index = interruptEnterIndex then .interruptEnter
  else if index = interruptExitIndex then .interruptExit
  else if index = checkoutIndex then .checkout
  else if spec.xnuTrap then .trap index
  else .plain index

/-! ## Structures -/

/-- `dserver_rpc_callhdr_t`: number, pid, tid and architecture. -/
def callhdr : List Member := [⟨4, 4⟩, ⟨4, 4⟩, ⟨4, 4⟩, ⟨4, 4⟩]

/-- `dserver_rpc_call_push_reply_t`: the header, then the address and the size of the reply. -/
def pushReplyMembers : List Member := [asMember callhdr, ⟨8, 8⟩, ⟨8, 8⟩]

/-- `dserver_call_*_t`, the body of the call. -/
def CallSpec.body (spec : CallSpec) : List Member := spec.params.map ParamType.member

/-- `dserver_rpc_call_*_t`: the header, and the body if there are parameters. -/
def CallSpec.members (spec : CallSpec) : List Member :=
  if spec.params = [] then [asMember callhdr] else [asMember callhdr, asMember spec.body]

def CallSpec.size (spec : CallSpec) : Nat := Layout.size spec.members

/-- Where the body starts. -/
def CallSpec.bodyOffset (spec : CallSpec) : Nat := roundUp (Layout.size callhdr) (alignment spec.body)

/-- The parameters within the datagram. -/
def CallSpec.fields (spec : CallSpec) : List Field :=
  (Layout.fields 0 spec.body).map fun f => ⟨spec.bodyOffset + f.offset, f.size⟩

/-- The sizes and the parameters' offsets of a short and of a long structure. -/
example : (calls[interruptExitIndex]?.map CallSpec.size, calls[checkinIndex]?.map CallSpec.size,
    calls[checkinIndex]?.map fun c => c.fields.map Field.offset) = (some 16, some 40, some [16, 24, 32]) := rfl

theorem ParamType.member_align_pos (p : ParamType) : 0 < p.member.align := by
  cases p <;> decide

/-- A datagram as long as the call's structure holds every parameter. -/
theorem CallSpec.field_stop_le (spec : CallSpec) {f : Field} (hf : f ∈ spec.fields) : f.stop ≤ spec.size := by
  obtain ⟨g, hg, rfl⟩ := List.mem_map.1 hf
  have hp : spec.params ≠ [] := by
    intro h
    simp [CallSpec.body, h, Layout.fields] at hg
  have ha : ∀ m ∈ spec.body, 0 < m.align := by
    intro m hm
    obtain ⟨p, -, rfl⟩ := List.mem_map.1 hm
    exact p.member_align_pos
  have hin : g.stop ≤ Layout.size spec.body := Nat.le_trans (Layout.field_stop_le ha hg) (stop_le_size _)
  have hout : spec.bodyOffset + Layout.size spec.body ≤ spec.size := by
    have h := stop_le_size spec.members
    rw [CallSpec.members, if_neg hp] at h
    unfold CallSpec.size
    rw [CallSpec.members, if_neg hp]
    exact h
  unfold Field.stop at hin ⊢
  simp only
  omega

end DarlingServer
