import DarlingServer.Wire
import DarlingServer.Drain
import DarlingServer.Lib.Abi
/-!
# Structures across architectures

The server is an x86-64 program and has i386 clients. The wrapper generator gives
its eight-byte members an alignment of eight bytes, so a call and a reply are laid
out alike on both sides. The structures of the kqueue channels and of
server-to-client calls are written by hand without it: they cross from one
architecture to the other exactly if no eight-byte member happens to land on an
offset that is four modulo eight (`skewed` lists those where one does).
-/

namespace DarlingServer

open Layout

/-! ## Generated structures -/

/-- A type as a parameter's entry in the table spells it; the allowed private types
are the scalars. -/
inductive Spelling where
  | fd
  | allowed (type : Scalar)
  | other (name : String)
  deriving DecidableEq

/-- A parameter's entry: its type, and the private one if that is another. -/
structure Param where
  type : Spelling
  privateType : Option Spelling := none
  deriving DecidableEq

/-- `parse_type` for a private type. -/
def parseType (p : Param) : Except String Scalar :=
  match (match p.type with | .fd => Spelling.allowed .int32 | t => p.privateType.getD t) with
  | .allowed type => .ok type
  | .fd => .error "Invalid private type: @fd"
  | .other name => .error ("Invalid private type: " ++ name)

def alignmentForType : Scalar → Nat
  | .int64 | .uint64 => 8
  | _ => 0

/-- The line the generator writes for a parameter. -/
def declared (type : Scalar) : Decl := ⟨type, alignmentForType type⟩

/-- `dserver_rpc_callhdr_t`: number, pid, tid and architecture. -/
def rpcCallhdr : Item := .record [⟨.int32, 0⟩, ⟨.int32, 0⟩, ⟨.int32, 0⟩, ⟨.int32, 0⟩]

/-- `dserver_rpc_replyhdr_t`: number and code. -/
def rpcReplyhdr : Item := .record [⟨.int32, 0⟩, ⟨.int32, 0⟩]

/-- The header, and the body if there are parameters. -/
def rpcStructure (header : Item) (types : List Scalar) : List Item :=
  if types = [] then [header] else [header, .record (types.map declared)]

/-- `dserver_rpc_call_*_t`. -/
def rpcCall (parameters : List Param) : Except String (List Item) :=
  (parameters.mapM parseType).map (rpcStructure rpcCallhdr)

/-- `dserver_rpc_reply_*_t`. -/
def rpcReply (parameters : List Param) : Except String (List Item) :=
  (parameters.mapM parseType).map (rpcStructure rpcReplyhdr)

/-- A structure has one layout: its members, its scalars and its size are the same under both ABIs. -/
structure OneLayout (items : List Item) : Prop where
  members : fields 0 (items.map (Item.member .i386)) = fields 0 (items.map (Item.member .x8664))
  scalars : scalarFields .i386 items = scalarFields .x8664 items
  size : sizeof .i386 items = sizeof .x8664 items

theorem OneLayout.of_decls {items : List Item}
    (h : ∀ item ∈ items, ∀ d ∈ item.decls, d.scalar.size ≤ 4 ∨ d.scalar.size ≤ d.aligned) : OneLayout items := by
  have hm : ∀ item ∈ items, ∀ d ∈ item.decls, d.member .i386 = d.member .x8664 :=
    fun item hi d hd => Decl.member_eq (h item hi d hd) .i386
  exact ⟨congrArg (fields 0) (items_member_eq hm), scalarFields_eq hm, sizeof_eq hm⟩

theorem declared_suits (type : Scalar) :
    (declared type).scalar.size ≤ 4 ∨ (declared type).scalar.size ≤ (declared type).aligned := by
  cases type <;> decide

theorem rpcStructure_oneLayout {header : Item} (hh : ∀ d ∈ header.decls, d.scalar.size ≤ 4) (types : List Scalar) :
    OneLayout (rpcStructure header types) := by
  apply OneLayout.of_decls
  intro item hi d hd
  have hcases : item = header ∨ item = .record (types.map declared) := by
    unfold rpcStructure at hi
    split at hi
    · exact .inl (List.mem_singleton.1 hi)
    · simpa using hi
  rcases hcases with rfl | rfl
  · exact .inl (hh d hd)
  · obtain ⟨type, -, rfl⟩ := List.mem_map.1 hd
    exact declared_suits type

/-- Whatever the parameters, the generated structures of a call and of its reply
have one layout for 32-bit and 64-bit clients. -/
theorem generated_one_layout (callParameters replyParameters : List Param) (call reply : List Item)
    (hc : rpcCall callParameters = .ok call) (hr : rpcReply replyParameters = .ok reply) :
    OneLayout call ∧ OneLayout reply := by
  unfold rpcCall at hc
  unfold rpcReply at hr
  cases hct : callParameters.mapM parseType with
  | error e => rw [hct] at hc; cases hc
  | ok callTypes =>
    cases hrt : replyParameters.mapM parseType with
    | error e => rw [hrt] at hr; cases hr
    | ok replyTypes =>
      rw [hct] at hc
      rw [hrt] at hr
      cases hc
      cases hr
      exact ⟨rpcStructure_oneLayout (by decide) callTypes, rpcStructure_oneLayout (by decide) replyTypes⟩

/-- The call `checkin`, and the reply of `debug_list_processes`. -/
theorem generated_one_layout_checkin :
    OneLayout [rpcCallhdr, .record [⟨.bool, 0⟩, ⟨.uint64, 8⟩, ⟨.int32, 0⟩]] ∧
      OneLayout [rpcReplyhdr, .record [⟨.uint64, 8⟩, ⟨.int32, 0⟩]] :=
  generated_one_layout [⟨.allowed .bool, none⟩, ⟨.allowed .uint64, none⟩, ⟨.fd, none⟩]
    [⟨.allowed .uint64, none⟩, ⟨.fd, none⟩] _ _ rfl rfl

/-! The structures of `calls` are these. -/

def ParamType.scalar : ParamType → Scalar
  | .bool => .bool
  | .int32 | .fd => .int32
  | .uint32 => .uint32
  | .int64 => .int64
  | .uint64 => .uint64

theorem ParamType.declared_member (p : ParamType) (abi : Abi) : (declared p.scalar).member abi = p.member := by
  cases p <;> cases abi <;> rfl

theorem CallSpec.members_eq (spec : CallSpec) (abi : Abi) :
    (rpcStructure rpcCallhdr (spec.params.map ParamType.scalar)).map (Item.member abi) = spec.members := by
  have hbody : ((spec.params.map ParamType.scalar).map declared).map (Decl.member abi) = spec.body := by
    rw [List.map_map, List.map_map]
    exact List.map_congr_left fun p _ => p.declared_member abi
  have hheader : rpcCallhdr.member abi = asMember callhdr := by cases abi <;> rfl
  unfold rpcStructure CallSpec.members
  by_cases hp : spec.params = []
  · simp [hp, hheader]
  · have hne : ¬ spec.params.map ParamType.scalar = [] := by simpa using hp
    rw [if_neg hp, if_neg hne, List.map_cons, hheader, ← hbody]
    rfl

/-- The size the server checks a call against is the size it has for either client. -/
theorem CallSpec.sizeof_eq (spec : CallSpec) (abi : Abi) :
    sizeof abi (rpcStructure rpcCallhdr (spec.params.map ParamType.scalar)) = spec.size :=
  congrArg Layout.size (spec.members_eq abi)

/-! ## Structures written by hand -/

namespace Supplement

/-- The messages of the kqueue channels, then those of server-to-client calls. -/
inductive Message where
  | callNotification
  | callMachPortModify
  | replyMachPortModify
  | callMachPortRead
  | replyMachPortRead
  | callProcModify
  | replyProcModify
  | callProcRead
  | replyProcRead
  | callMmap
  | replyMmap
  | callMunmap
  | replyMunmap
  | callMprotect
  | replyMprotect
  | callMsync
  | replyMsync
  deriving DecidableEq, Repr

/-- A member without an attribute. -/
def plain (type : Scalar) : Item := .one ⟨type, 0⟩

/-- `dserver_kqchan_callhdr_t`: number, pid and tid. -/
def kqchanCallhdr : Item := .record [⟨.int32, 0⟩, ⟨.int32, 0⟩, ⟨.int32, 0⟩]

/-- `dserver_kqchan_replyhdr_t`: number and code. -/
def kqchanReplyhdr : Item := .record [⟨.int32, 0⟩, ⟨.int32, 0⟩]

/-- `dserver_s2c_callhdr_t`: the two numbers. -/
def s2cCallhdr : Item := .record [⟨.int32, 0⟩, ⟨.int32, 0⟩]

/-- `dserver_s2c_replyhdr_t`: call number, pid, tid, architecture and the number. -/
def s2cReplyhdr : Item := .record [⟨.int32, 0⟩, ⟨.int32, 0⟩, ⟨.int32, 0⟩, ⟨.int32, 0⟩, ⟨.int32, 0⟩]

/-- The event of `dserver_kqchan_reply_mach_port_read_t`: ident, filter, flags, qos,
udata, fflags, xflags, data and four words of `ext`. -/
def kev : Item :=
  .record [⟨.uint64, 0⟩, ⟨.int16, 0⟩, ⟨.uint16, 0⟩, ⟨.int32, 0⟩, ⟨.uint64, 0⟩, ⟨.uint32, 0⟩, ⟨.uint32, 0⟩,
    ⟨.int64, 0⟩, ⟨.uint64, 0⟩, ⟨.uint64, 0⟩, ⟨.uint64, 0⟩, ⟨.uint64, 0⟩]

def Message.items : Message → List Item
  | .callNotification => [kqchanCallhdr]
  | .callMachPortModify => [kqchanCallhdr, plain .uint64, plain .uint64, plain .uint64]
  | .replyMachPortModify => [kqchanReplyhdr]
  | .callMachPortRead => [kqchanCallhdr, plain .uint64, plain .uint64]
  | .replyMachPortRead => [kqchanReplyhdr, kev]
  | .callProcModify => [kqchanCallhdr, plain .uint32]
  | .replyProcModify => [kqchanReplyhdr]
  | .callProcRead => [kqchanCallhdr]
  | .replyProcRead => [kqchanReplyhdr, plain .uint32, plain .int64]
  | .callMmap =>
    [s2cCallhdr, plain .uint64, plain .uint64, plain .int32, plain .int32, plain .int32, plain .int64]
  | .replyMmap => [s2cReplyhdr, plain .uint64, plain .int32]
  | .callMunmap => [s2cCallhdr, plain .uint64, plain .uint64]
  | .replyMunmap => [s2cReplyhdr, plain .int32, plain .int32]
  | .callMprotect => [s2cCallhdr, plain .uint64, plain .uint64, plain .int32]
  | .replyMprotect => [s2cReplyhdr, plain .int32, plain .int32]
  | .callMsync => [s2cCallhdr, plain .uint64, plain .uint64, plain .int32]
  | .replyMsync => [s2cReplyhdr, plain .int32, plain .int32]

inductive SizeCheck where
  /-- `_processMessages`: the header and then the structure must fit. -/
  | atLeast
  /-- `_s2cPerform`: the reply has the expected size. -/
  | exactly
  deriving DecidableEq

/-- The check that a received message goes through; the calls the server makes and
the replies it sends on a channel go through none. -/
def Message.sizeCheck : Message → Option SizeCheck
  | .callMachPortModify | .callMachPortRead | .callProcModify | .callProcRead => some .atLeast
  | .replyMmap | .replyMunmap | .replyMprotect | .replyMsync => some .exactly
  | _ => none

def Message.passes (m : Message) (reader : Abi) (length : Nat) : Bool :=
  match m.sizeCheck with
  | none => true
  | some .atLeast => sizeof reader [kqchanCallhdr] ≤ length && sizeof reader m.items ≤ length
  | some .exactly => length == sizeof reader m.items

/-- The bytes a program compiled for `writer` sends. -/
def Message.write (m : Message) (writer : Abi) (values : List (List UInt8)) (padding : Nat → UInt8) : List UInt8 :=
  written (sizeof writer m.items) (scalarFields writer m.items) values padding

/-- The fields as a program compiled for `reader` sees them. -/
def Message.read (m : Message) (reader : Abi) (mem : Nat → UInt8) : List (List UInt8) :=
  (scalarFields reader m.items).map (Field.read mem)

/-- Every message passes the check of its receiver, and yields the values it was
made from, whatever its padding and whatever the receiver's buffer held. -/
def Message.Crosses (m : Message) (writer reader : Abi) : Prop :=
  ∀ (values : List (List UInt8)) (padding stale : Nat → UInt8),
    values.map List.length = (scalarFields writer m.items).map Field.size →
      m.passes reader (m.write writer values padding).length = true ∧
        m.read reader (received (m.write writer values padding) stale) = values

/-- The messages with an eight-byte member at an offset that suits only i386. -/
def skewed : List Message := [.callMachPortModify, .callMachPortRead, .replyProcRead, .callMmap, .replyMmap]

theorem mem_skewed_iff (m : Message) :
    m ∈ skewed ↔ scalarFields .i386 m.items ≠ scalarFields .x8664 m.items := by
  cases m <;> decide

/-- Where the fields agree the sizes do, as far as they are checked. -/
theorem passes_of_not_skewed {m : Message} (h : m ∉ skewed) (writer reader : Abi) :
    m.passes reader (sizeof writer m.items) = true := by
  revert h
  cases m <;> cases writer <;> cases reader <;> decide

theorem passes_same (m : Message) (abi : Abi) : m.passes abi (sizeof abi m.items) = true := by
  cases m <;> cases abi <;> decide

theorem ordered_fields (m : Message) (abi : Abi) : Ordered (scalarFields abi m.items) := by
  cases m <;> cases abi <;> decide

theorem fields_within (m : Message) (abi : Abi) :
    ∀ f ∈ scalarFields abi m.items, f.stop ≤ sizeof abi m.items := by
  cases m <;> cases abi <;> decide

/-- A message crosses from one architecture to the other exactly if it is not one of
the five whose members stand at other offsets there. -/
theorem crosses_iff (m : Message) (writer reader : Abi) :
    m.Crosses writer reader ↔ writer = reader ∨ m ∉ skewed := by
  have hsame : scalarFields reader m.items = scalarFields writer m.items ↔ writer = reader ∨ m ∉ skewed := by
    rw [mem_skewed_iff, not_not]
    cases writer <;> cases reader <;> simp [eq_comm]
  constructor
  · intro h
    apply hsame.1
    have hsz : (scalarFields reader m.items).map Field.size = (scalarFields writer m.items).map Field.size := by
      rw [scalarFields_size, scalarFields_size]
    apply fields_eq_of_reads_back hsz (scalarFields_size_pos writer m.items)
    intro k
    exact (h (marked k (scalarFields writer m.items)) (fun _ => 0) (fun _ => 0) (marked_length k _)).2
  · intro h values padding stale hl
    refine ⟨?_, ?_⟩
    · rw [Message.write, length_written]
      rcases h with rfl | h
      · exact passes_same m writer
      · exact passes_of_not_skewed h writer reader
    · rw [Message.read, hsame.2 h]
      exact reads_back (ordered_fields m writer) (fields_within m writer) hl padding stale

/-- A modification from an i386 client does not reach the channel of a server. -/
theorem callMachPortModify_not_crosses : ¬ Message.callMachPortModify.Crosses .i386 .x8664 := by
  intro h
  have hlen := (h (marked 0 (scalarFields .i386 Message.callMachPortModify.items)) (fun _ => 0) (fun _ => 0)
    (marked_length 0 _)).1
  rw [Message.write, length_written] at hlen
  revert hlen
  decide

/-- What the channel's handler makes of it. -/
theorem processMessage_modify_i386 {message : Drain.Packet}
    (hlen : message.length = sizeof .i386 Message.callMachPortModify.items)
    (hn : Drain.Msgnum.ofNumber (littleEndian (message.take 4)) = some .machPortModify) :
    Drain.processMessage Drain.machPortCalls message =
      .error (.invalidArgument "Message buffer was too small for dserver_kqchan_msgnum_mach_port_modify") := by
  have h36 : message.length = 36 := hlen
  have hhdr : Layout.size Drain.callhdr = 12 := rfl
  have hstruct : Layout.size Drain.machPortCalls.modify.members = 40 := rfl
  have hnum : Drain.machPortCalls.modify.number = .machPortModify := rfl
  simp only [Drain.processMessage, h36, hhdr, hn, hnum, hstruct]
  rfl

end Supplement

end DarlingServer
