import NusaKernel.Bio.Bytes
import NusaKernel.Cksum.Crc32
import NusaKernel.Lib.CString
import NusaKernel.Lib.LittleEndian
import NusaKernel.Lib.Word

/-!
# System parameters (`lib/sysparam/sysparam.c`)

Parameters are pairs of a name and data in a list in memory. They are stored in an area of a block
device, one record after the other: a header with a magic number, a checksum, flags and the two
lengths as 16-bit fields, then the name and the data, each padded with zeros to a multiple of four
bytes. `sysparam_scan` looks for records in the area, `sysparam_write` erases it and writes the
list.

What the environment decides is an argument: whether there is memory, how the calls of the block
layer end, and what stands in memory behind the buffer of a scan, which the scan can read.
-/

namespace NusaKernel.Sysparam

open Ring (block)
open Segment (store)
open LittleEndian (encode decode)
open Word (roundup64)
open Cksum (crc32)
open Bio

/-- `struct sysparam`. -/
structure Param where
  flags : UInt32
  name : CString
  data : List UInt8
deriving DecidableEq

/-- The global `params`, and the bytes of the device. -/
structure State where
  list : List Param
  dirty : Bool
  bdev : Option Bdev
  offset : ℕ
  len : ℕ
  disk : ℕ → UInt8

/-- `SYSPARAM_MAGIC`. -/
def sysparamMagic : ℕ := 0x53595350

/-- `SYSPARAM_FLAG_LOCK`. -/
def sysparamFlagLock : UInt32 := 1

variable (param : Param)

def sysparamIsLocked : Bool := param.flags &&& sysparamFlagLock ≠ 0

/-! ## `struct sysparam_phys` -/

/-- `sizeof(struct sysparam_phys)`. -/
def physSize : ℕ := 16

variable (mem : ℕ → UInt8) (sp : ℕ)

/-- `sp->magic`, of the structure at a place in memory. -/
def physMagic : ℕ := decode (block mem sp 4)

def physCrc32 : ℕ := decode (block mem (sp + 4) 4)

def physFlags : ℕ := decode (block mem (sp + 8) 4)

def physNamelen : ℕ := decode (block mem (sp + 12) 2)

def physDatalen : ℕ := decode (block mem (sp + 14) 2)

def sysparamLen : ℕ :=
  physSize + roundup64 (physNamelen mem sp) 4 + roundup64 (physDatalen mem sp) 4

def sysparamCrc32 : UInt32 := crc32 0 (block mem (sp + 8) (sysparamLen mem sp - 8))

def sysparamReadPhys : Param where
  flags := UInt32.ofNat (physFlags mem sp)
  name := .ofBuffer (block mem (sp + physSize) (physNamelen mem sp))
  data := block mem (sp + physSize + roundup64 (physNamelen mem sp) 4) (physDatalen mem sp)

/-! ## Scanning -/

/-- The loop of `sysparam_scan` over the buffer, which is at the start of the memory. `err` is
what it returns unless there is no memory: `room` parameters can be created. -/
def scanLoop (mem : ℕ → UInt8) (offset len : ℕ) (err : Status) (room pos : ℕ) (list : List Param) :
    Status × List Param :=
  if _h : pos < len then
    if physMagic mem pos ≠ sysparamMagic then scanLoop mem offset len err room (pos + 4) list
    -- the position in the buffer is compared with the end of the area on the device
    else if offset + len < pos + sysparamLen mem pos then (err, list)
    else if physCrc32 mem pos ≠ (sysparamCrc32 mem pos).toNat then
      scanLoop mem offset len err room (pos + sysparamLen mem pos) list
    else
      match room with
      | 0 => (errNoMemory, list)
      | room + 1 =>
        scanLoop mem offset len err room (pos + sysparamLen mem pos)
          (list ++ [sysparamReadPhys mem pos])
  else (err, list)
termination_by len - pos
decreasing_by
  · omega
  · unfold sysparamLen physSize
    omega
  · unfold sysparamLen physSize
    omega

variable (s : State)

/-- `sysparam_scan`. `heap` is the memory from the allocated buffer on; without `room` there is no
buffer. The result of `bio_read` is kept in a `status_t`, and it is what a scan returns. -/
def sysparamScan (dev : Bdev) (offset len : ℕ) (room : Option ℕ) (read : Outcome)
    (heap : ℕ → UInt8) : Status × State :=
  let s := { s with bdev := some dev, offset := offset, len := len, dirty := false }
  match room with
  | none => (errNoMemory, s)
  | some room =>
    let (result, buf) := bioRead dev s.disk read (block heap 0 len) offset
    let err := wrapInt result
    if err < len then (errIo, s)
    else
      let (err, list) := scanLoop (store heap 0 buf) offset len err room 0 s.list
      (err, { s with list := list })

def sysparamReload (room : Option ℕ) (read : Outcome) (heap : ℕ → UInt8) : Status × State :=
  match s.bdev with
  | none => (errInvalidArgs, s)
  | some dev =>
    if s.len = 0 then (errInvalidArgs, s)
    else sysparamScan { s with list := [], dirty := false } dev s.offset s.len room read heap

/-! ## Changing the list -/

/-- `sysparam_find`: the place in the list. -/
def sysparamFind (name : CString) : Option ℕ := s.list.findIdx? fun param => param.name = name

/-- `sysparam_add`. `room` says whether there is memory for the parameter. -/
def sysparamAdd (name : CString) (value : List UInt8) (room : Bool) : Status × State :=
  match sysparamFind s name with
  | some _ => (errAlreadyExists, s)
  | none =>
    if room then (noError, { s with list := s.list ++ [⟨0, name, value⟩], dirty := true })
    else (errNoMemory, s)

def sysparamRemove (name : CString) : Status × State :=
  match sysparamFind s name with
  | none => (errNotFound, s)
  | some place =>
    if (s.list[place]?).any sysparamIsLocked then (errNotAllowed, s)
    else (noError, { s with list := s.list.eraseIdx place, dirty := true })

/-- Set the lock bit. -/
def Param.lock : Param := { param with flags := param.flags ||| sysparamFlagLock }

def sysparamLock (name : CString) : Status × State :=
  match sysparamFind s name with
  | none => (errNotFound, s)
  | some place =>
    if (s.list[place]?).any sysparamIsLocked then (noError, s)
    else (noError, { s with list := s.list.modify place Param.lock, dirty := true })

/-! ## Writing -/

/-- The space a parameter takes, as `sysparam_write` counts it before it starts. -/
def preflightLen : ℕ := physSize + roundup64 param.name.strlen 4 + roundup64 param.data.length 4

/-- `flags`, `namelen` and `datalen` of the header; the lengths are cut to 16 bits. -/
def headerFields : List UInt8 :=
  encode 4 param.flags.toNat ++ encode 2 param.name.strlen ++ encode 2 param.data.length

/-- The bytes at `param->data`, which `sysparam_create` pads with zeros. -/
def dataBuffer : List UInt8 :=
  param.data ++ List.replicate (roundup64 param.data.length 4 - param.data.length) 0

/-- The checksum of a record, taken piece by piece. -/
def recordSum : UInt32 :=
  let sum := crc32 0 (headerFields param)
  let sum := crc32 sum param.name.bytes
  let sum :=
    if param.name.strlen % 4 ≠ 0 then crc32 sum (List.replicate (4 - param.name.strlen % 4) 0)
    else sum
  crc32 sum (dataBuffer param)

/-- The header of a record. -/
def phys : List UInt8 :=
  encode 4 sysparamMagic ++ encode 4 (recordSum param).toNat ++ headerFields param

/-- The position behind a name that starts at `pos`. -/
def behindName (pos strlen : ℕ) : ℕ :=
  let pos := pos + roundup64 strlen 2
  if pos % 4 ≠ 0 then pos + 2 else pos

/-- One round of the loop that serializes the parameters into the buffer. -/
def putParam (staged : (ℕ → UInt8) × ℕ) (param : Param) : (ℕ → UInt8) × ℕ :=
  let (buf, pos) := staged
  let buf := store buf pos (phys param)
  let pos := pos + physSize
  let buf := store buf pos param.name.bytes
  let pos := behindName pos param.name.strlen
  (store buf pos param.data, pos + roundup64 param.data.length 4)

/-- The buffer that is written, which `calloc` filled with zeros. -/
def stage (list : List Param) : ℕ → UInt8 := (list.foldl putParam (fun _ => 0, 0)).1

/-- `sysparam_write`. The result of `bio_write` is not looked at. -/
def sysparamWrite (room : Bool) (erase write : Outcome) : Status × State :=
  match s.bdev with
  | none => (errInvalidArgs, s)
  | some dev =>
    if s.len = 0 then (errInvalidArgs, s)
    else if !s.dirty then (noError, s)
    else if s.len < (s.list.map preflightLen).sum then (errNoMemory, s)
    else if !room then (errNoMemory, s)
    else
      let (err, disk) := bioErase dev s.disk erase s.offset s.len
      if err < s.len then (errIo, { s with disk := disk })
      else
        let (_, disk) := bioWrite dev disk write (block (stage s.list) 0 s.len) s.offset
        (noError, { s with disk := disk, dirty := false })

/-! ## Calls -/

/-- A call, with what the environment decides during it. -/
inductive Call where
  | add (name : CString) (value : List UInt8) (room : Bool)
  | remove (name : CString)
  | lock (name : CString)
  | write (room : Bool) (erase write : Outcome)

def State.step : Call → Option State
  | .add name value room => (sysparamAdd s name value room).2
  | .remove name => (sysparamRemove s name).2
  | .lock name => (sysparamLock s name).2
  | .write room erase write => (sysparamWrite s room erase write).2

/-- Before the first scan. -/
def State.boot (disk : ℕ → UInt8) : State where
  list := []
  dirty := false
  bdev := none
  offset := 0
  len := 0
  disk := disk

end NusaKernel.Sysparam
