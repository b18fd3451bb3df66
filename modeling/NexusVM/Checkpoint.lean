import NexusVM.Records
import NexusVM.VmMemory

/-!
# Checkpoints

The functions of `checkpoint/checkpoint.c`. The time is an argument, and so is what the memory of a
local variable held before a read into it that falls short.

* `checkpointWrite`, `checkpointRead`: whole records, or an error;
* `checkpointSaveDeviceState`, `checkpointSaveMemory`, `checkpointCreate`, `snapshotCreate`: the writer;
* `checkpointRestoreMemory`, `checkpointRestore`, `snapshotRestore`: the two readers.
-/

namespace NexusVM

open Stdio

/-! ## File helpers -/

/-- `checkpoint_write` -/
def checkpointWrite (f : ℕ) (data : List UInt8) : HostM Result := do
  let n ← onDisk (fwrite f data)
  if n ≠ data.length then return .errGeneric
  return .ok

/-- `checkpoint_read`, with the bytes that were there. -/
def checkpointRead (f size : ℕ) : HostM (Result × List UInt8) := do
  let data ← onDisk (fread f size)
  if data.length ≠ size then return (.errGeneric, data)
  return (.ok, data)

/-- What a local variable of `size` bytes holds after a read of `data` into it. -/
def fillLocal (data : List UInt8) (stale : ℕ → UInt8) (size : ℕ) : List UInt8 :=
  data ++ ((List.range size).map stale).drop data.length

/-! ## Creation -/

/-- `NEXUSVM_CHECKPOINT_VERSION` -/
def NEXUSVM_CHECKPOINT_VERSION : UInt32 := 1

/-- The header that `checkpoint_create` writes: its magic is `"NXVMCHKP"`. -/
def checkpointHeader (v : Nexusvm) (timestamp : UInt64) (vmName : List UInt8) : CheckpointHeader where
  magic := #v[0x4E, 0x58, 0x56, 0x4D, 0x43, 0x48, 0x4B, 0x50]
  version := NEXUSVM_CHECKPOINT_VERSION
  timestamp := timestamp
  vmId := v.id.toUInt64
  vcpuCount := v.vcpuCount
  memoryRegions := v.memoryRegionCount
  memorySize := v.memorySize
  vmName := Vector.ofFn fun i => vmName.getD i 0
  state := v.state.code

/-- The loop of `checkpoint_create` over the vCPUs. -/
def writeVcpus (f : ℕ) : List Addr → HostM Result
  | [] => return .ok
  | c :: cs => do
    let u ← getVcpu c
    let result ← checkpointWrite f (cpuStateCodec.encode u.cpuState)
    if result ≠ .ok then return result
    writeVcpus f cs

/-- `checkpoint_save_device_state`: the buffer and what it holds; a list of devices that does not have
as many entries as it should leaves the buffer or is not written to all of it. -/
def checkpointSaveDeviceState (v : Nexusvm) : HostM (Except Result (Addr × List UInt8)) := do
  let totalSize := Codec.u32.size + sizeofPciConfigSpace * v.assignedDeviceCount.toNat
  match ← onMem (alignedAlloc .deviceState 16 totalSize) with
  | none => return .error .errNoMemory
  | some buffer =>
    Prog.require (v.assignedDevices.length = v.assignedDeviceCount.toNat)
    return .ok (buffer, Codec.u32.encode v.assignedDeviceCount ++
      pciConfigCodec.encodeList v.assignedDevices)

/-- The part of `checkpoint_create` that writes the devices; its result is not looked at. -/
def writeDevices (f : ℕ) (v : Nexusvm) : HostM Unit := do
  match ← checkpointSaveDeviceState v with
  | .error _ => return ()
  | .ok (buffer, data) =>
    let result ← checkpointWrite f (Codec.u64.encode (UInt64.ofNat data.length))
    Prog.when (result = .ok) (discard (checkpointWrite f data))
    freeBuffer .deviceState (some buffer)

/-- The body of the loop of `checkpoint_save_memory`; the results of the writes are not looked at. -/
def saveRegion (vm : Addr) (f : ℕ) (region : MemoryRegion) : HostM Unit := do
  let _ ← checkpointWrite f (regionRecordCodec.encode region.record)
  Prog.when (region.type = .ram ∧ region.size > 0) do
    let hostPhys ← vmGpaToHpa (some vm) region.guestPhys
    Prog.when (hostPhys ≠ INVALID_PHYS_ADDR) do
      let data ← readRam hostPhys.toNat region.size.toNat
      let _ ← checkpointWrite f data

/-- `checkpoint_save_memory`; the table holds at least as many regions as it counts. -/
def checkpointSaveMemory (vm : Option Addr) (path : String) : HostM Result := do
  match vm with
  | none => return .errInvalidParam
  | some a =>
    match ← onDisk (fopen path .append) with
    | none => return .errGeneric
    | some f =>
      let v ← getVm a
      Prog.require (v.memoryRegionCount.toNat ≤ v.memoryRegions.length)
      Prog.forEach (saveRegion a f) (v.memoryRegions.take v.memoryRegionCount.toNat)
      onDisk (fclose f)
      return .ok

/-- The part of `checkpoint_create` before the devices. -/
def writeState (f : ℕ) (v : Nexusvm) (timestamp : UInt64) : HostM Result := do
  let vmName ← Prog.fetch fun _ => strncpy (List.replicate 64 0) v.name 63
  let result ← checkpointWrite f (checkpointHeaderCodec.encode (checkpointHeader v timestamp vmName))
  if result ≠ .ok then return result
  let result ← checkpointWrite f (vmConfigCodec.encode v.config)
  if result ≠ .ok then return result
  writeVcpus f v.vcpus

/-- `checkpoint_create` -/
def checkpointCreate (vm : Option Addr) (path : Option String) (timestamp : UInt64) : HostM Result := do
  match vm, path with
  | some a, some path =>
    match ← onDisk (fopen path .write) with
    | none => return .errGeneric
    | some f =>
      let v ← getVm a
      let result ← writeState f v timestamp
      if result ≠ .ok then
        onDisk (fclose f)
        return result
      writeDevices f v
      -- the memory goes through a second stream, while the first is still open
      let result ← checkpointSaveMemory (some a) path
      onDisk (fclose f)
      return result
  | _, _ => return .errInvalidParam

/-- `snapshot_create` -/
def snapshotCreate (vm : Option Addr) (path : Option String) (timestamp : UInt64) : HostM Result := do
  match vm, path with
  | some a, some path =>
    putVm a { ← getVm a with state := .suspended }
    let result ← checkpointCreate (some a) (some path) timestamp
    Prog.when (result = .ok) do putVm a { ← getVm a with state := .running }
    return result
  | _, _ => return .errInvalidParam

/-! ## Restoration -/

/-- The body of the loop of `checkpoint_restore_memory`. The record says how many bytes are stored: what
leaves the memory of the VM overwrites other records of the process, and is undefined. -/
def restoreRegion (vm : Addr) (f : ℕ) (stale : ℕ → UInt8) : HostM Unit := do
  let data ← onDisk (fread f regionRecordCodec.size)
  let region := regionRecordCodec.decode (fillLocal data stale regionRecordCodec.size)
  Prog.when (region.type = MemoryRegionType.ram.code ∧ region.size > 0) do
    let hostPhys ← vmGpaToHpa (some vm) region.guestPhys
    Prog.when (hostPhys ≠ INVALID_PHYS_ADDR) do
      let bytes ← onDisk (fread f region.size.toNat)
      let v ← getVm vm
      Prog.require (bytes = [] ∨ v.Holds (← get).mem hostPhys.toNat bytes.length)
      writeRam hostPhys.toNat bytes

/-- The offset that `fseek` gets for an unsigned number. -/
def seekOffset (n : UInt64) : ℤ := n.toInt64.toInt

/-- Read the size of the device section into a local variable, and seek past the section. -/
def skipDevices (f : ℕ) (stale : ℕ → UInt8) : HostM Unit := do
  let data ← onDisk (fread f Codec.u64.size)
  let deviceSize := Codec.u64.decode (fillLocal data stale Codec.u64.size)
  onDisk (fseek f (seekOffset deviceSize) .cur)

/-- `checkpoint_restore_memory`; `stale i` is what the `i`-th local variable held. -/
def checkpointRestoreMemory (stale : ℕ → ℕ → UInt8) (vm : Option Addr) (path : Option String) :
    HostM Result := do
  match vm, path with
  | some a, some path =>
    match ← onDisk (fopen path .read) with
    | none => return .errGeneric
    | some f =>
      onDisk (fseek f sizeofCheckpointHeader .set)
      -- the second seek starts from the beginning again
      onDisk (fseek f sizeofVmConfig .set)
      let v ← getVm a
      onDisk (fseek f (sizeofCpuState * v.vcpuCount.toNat) .cur)
      skipDevices f (stale 0)
      Prog.forEach (fun i => restoreRegion a f (stale (i + 1))) (List.range v.memoryRegionCount.toNat)
      onDisk (fclose f)
      return .ok
  | _, _ => return .errInvalidParam

/-- The loop of `snapshot_restore` over the vCPUs, from vCPU `i` on. -/
def restoreVcpus (f : ℕ) (stale : ℕ → ℕ → UInt8) : ℕ → List Addr → HostM Unit
  | _, [] => return ()
  | i, c :: cs => do
    let (_, data) ← checkpointRead f sizeofCpuState
    let _ ← vcpuSetState (some c) (cpuStateCodec.decode (fillLocal data (stale i) sizeofCpuState))
    restoreVcpus f stale (i + 1) cs

/-- `snapshot_restore`; `stale` and `staleMemory` are what the local variables of it and of
`checkpoint_restore_memory` held. -/
def snapshotRestore (stale staleMemory : ℕ → ℕ → UInt8) (vm : Option Addr) (path : Option String) :
    HostM Result := do
  match vm, path with
  | some a, some path =>
    match ← onDisk (fopen path .read) with
    | none => return .errGeneric
    | some f =>
      onDisk (fseek f sizeofCheckpointHeader .set)
      onDisk (fseek f sizeofVmConfig .cur)
      let v ← getVm a
      restoreVcpus f stale 1 v.vcpus
      skipDevices f (stale 0)
      onDisk (fclose f)
      checkpointRestoreMemory staleMemory (some a) (some path)
  | _, _ => return .errInvalidParam

/-- `checkpoint_restore_device_state`: the number of devices is read, and nothing is done. -/
def checkpointRestoreDeviceState (buffer : List UInt8) : HostM Unit :=
  Prog.require (Codec.u32.size ≤ buffer.length)

/-- The loop of `checkpoint_restore` over the vCPUs. -/
def readVcpus (vm : Addr) (f : ℕ) : List Addr → HostM Result
  | [] => return .ok
  | c :: cs => do
    let (result, data) ← checkpointRead f sizeofCpuState
    if result ≠ .ok then
      discard (vmDestroy (some vm))
      return result
    let _ ← vcpuSetState (some c) (cpuStateCodec.decode data)
    readVcpus vm f cs

/-- The part of `checkpoint_restore` that reads the devices. -/
def readDevices (f : ℕ) : HostM Unit := do
  let (result, data) ← checkpointRead f Codec.u64.size
  let deviceSize := (Codec.u64.decode data).toNat
  Prog.when (result = .ok ∧ deviceSize > 0) do
    match ← onMem (alignedAlloc .deviceState 16 deviceSize) with
    | none => return ()
    | some buffer =>
      let (result, data) ← checkpointRead f deviceSize
      Prog.when (result = .ok) (checkpointRestoreDeviceState data)
      freeBuffer .deviceState (some buffer)

/-- What `checkpoint_restore` compares the magic with: `"NXVHMCHKP"`. -/
def restoreMagic : List UInt8 := [0x4E, 0x58, 0x56, 0x48, 0x4D, 0x43, 0x48, 0x4B, 0x50, 0]

/-- The part of `checkpoint_restore` that reads what comes before the vCPUs: the configuration. -/
def readConfig (f : ℕ) : HostM (Except Result VmConfig) := do
  let (result, data) ← checkpointRead f checkpointHeaderCodec.size
  if result ≠ .ok then return .error result
  let header := checkpointHeaderCodec.decode data
  let order ← Prog.fetch fun _ => strncmp header.magic.toList restoreMagic 8
  if order ≠ 0 then return .error .errGeneric
  let (result, data) ← checkpointRead f vmConfigCodec.size
  if result ≠ .ok then return .error result
  return .ok (vmConfigCodec.decode data)

/-- `checkpoint_restore`: the new VM. The results of the last two parts are not looked at. -/
def checkpointRestore (stale : ℕ → ℕ → UInt8) (path : Option String) : HostM (Except Result Addr) := do
  match path with
  | none => return .error .errInvalidParam
  | some path =>
    match ← onDisk (fopen path .read) with
    | none => return .error .errGeneric
    | some f =>
      match ← readConfig f with
      | .error result =>
        onDisk (fclose f)
        return .error result
      | .ok config =>
        match ← vmCreate (some config) with
        | .error result =>
          onDisk (fclose f)
          return .error result
        | .ok vm =>
          let v ← getVm vm
          let result ← readVcpus vm f v.vcpus
          if result ≠ .ok then
            onDisk (fclose f)
            return .error result
          readDevices f
          onDisk (fclose f)
          let _ ← checkpointRestoreMemory stale (some vm) (some path)
          return .ok vm

end NexusVM
