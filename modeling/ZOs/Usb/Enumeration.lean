import Mathlib.Data.List.Destutter
import Mathlib.Logic.Function.Basic

/-!
# Enumeration of the devices on the root hub

`usb_core.c`: what a device returns for its descriptors is copied into the
driver's records. An access that C does not check is checked here, and the
computation stops with a `Fault` where the check fails. What comes from
outside is the input: the status of every port and, for the device on it,
whether it could be addressed and what each of its transfers left in the
page that it was read into, if it succeeded.

Nothing in the driver checks what the device returns. When the enumeration
is safe all the same is therefore a condition on the bytes, `PortsFit`.
-/

namespace ZOs.UsbCore

/-- What is in memory from an address on. -/
abbrev Bytes := Nat → UInt8

inductive Fault
  /-- a byte outside the buffer is read or written -/
  | buffer
  /-- an array is indexed at or beyond its size -/
  | index
  /-- NULL is dereferenced -/
  | null
  /-- the loop has not come to its end -/
  | running
  deriving DecidableEq

def deviceDescriptorLength : Nat := 0x12
def configurationDescriptorLength : Nat := 0x9
def interfaceDescriptorLength : Nat := 9
def endpointDescriptorLength : Nat := 7
def usbDataBufferSize : Nat := 4096
def usbMaxNumDevices : Nat := 16
def usbMaxNumInterfaces : Nat := 16
def usbMaxNumEndpoints : Nat := 32
def usbMaxNumAlternateSettings : Nat := 16
def usbMaxNumConfigurations : Nat := 8

def usbDescriptorTypeInterface : UInt8 := 0x4
def usbDescriptorTypeEndpoint : UInt8 := 0x5

/-- `usb_interface_alternate_setting_t`, with the descriptors of its endpoints. -/
structure AlternateSetting where
  interfaceDescriptor : Bytes
  endpoints : Nat → Bytes
  numEndpoints : Nat

/-- `usb_interface_t`. -/
structure Interface where
  alternateSettings : Nat → AlternateSetting
  numAlternateSettings : Nat
  interfaceNumber : UInt8

/-- `usb_configuration_t`. -/
structure Configuration where
  configurationDescriptor : Bytes
  interfaces : Nat → Interface
  numInterfaces : Nat

/-- `usb_device_t`. -/
structure Device where
  deviceDescriptor : Bytes
  configurations : Nat → Configuration
  numConfigurations : Nat

/-- The devices of `usb_core_driver_t`. -/
structure CoreDriver where
  devices : Nat → Device
  numDevices : Nat

/-! What `memory_set` with 0 leaves. -/

def zeroSetting : AlternateSetting := ⟨fun _ => 0, fun _ _ => 0, 0⟩
def zeroInterface : Interface := ⟨fun _ => zeroSetting, 0, 0⟩
def zeroConfiguration : Configuration := ⟨fun _ => 0, fun _ => zeroInterface, 0⟩
def zeroDevice : Device := ⟨fun _ => 0, fun _ => zeroConfiguration, 0⟩
def zeroDriver : CoreDriver := ⟨fun _ => zeroDevice, 0⟩

/-- Write `interfaces[i]`. -/
def Configuration.store (config : Configuration) (i : Nat) (interface : Interface) :
    Configuration :=
  { config with interfaces := Function.update config.interfaces i interface }

/-- Write `alternate_settings[j]`. -/
def Interface.store (interface : Interface) (j : Nat) (setting : AlternateSetting) : Interface :=
  { interface with alternateSettings := Function.update interface.alternateSettings j setting }

@[simp] theorem Configuration.store_self {config : Configuration} {i : Nat}
    {interface : Interface} : (config.store i interface).interfaces i = interface :=
  Function.update_self ..

theorem Configuration.store_of_ne {config : Configuration} {i i' : Nat} {interface : Interface}
    (h : i' ≠ i) : (config.store i interface).interfaces i' = config.interfaces i' :=
  Function.update_of_ne h ..

@[simp] theorem Interface.store_self {interface : Interface} {j : Nat}
    {setting : AlternateSetting} : (interface.store j setting).alternateSettings j = setting :=
  Function.update_self ..

theorem Interface.store_of_ne {interface : Interface} {j j' : Nat} {setting : AlternateSetting}
    (h : j' ≠ j) : (interface.store j setting).alternateSettings j' =
      interface.alternateSettings j' :=
  Function.update_of_ne h ..

/-- What a device answers: whether `xhci_address_device` succeeds, and the
page that each transfer filled, `none` for one that failed. -/
structure Answers where
  addressed : Bool
  deviceDescriptor : Option Bytes
  configurationDescriptor : Nat → Option Bytes
  allConfigurationDescriptors : Nat → Option Bytes

/-- `xhci_port_status_t`. -/
structure PortStatus where
  currentConnectStatus : Bool
  portEnabled : Bool
  deriving DecidableEq

/-- A port: what `xhci_get_port_status` finds, and the device. -/
structure Port where
  status : Option PortStatus
  device : Answers

/-! ## The descriptors of a configuration -/

/-- A byte of the descriptor buffer. -/
def readByte (buffer : Bytes) (offset : Nat) : Except Fault UInt8 :=
  if offset < usbDataBufferSize then .ok (buffer offset) else .error .buffer

/-- A struct of `length` bytes, copied out of the descriptor buffer. -/
def readStruct (buffer : Bytes) (offset length : Nat) : Except Fault Bytes :=
  if offset + length ≤ usbDataBufferSize then
    .ok fun i => if i < length then buffer (offset + i) else 0
  else .error .buffer

/-- The local variables of `enumerate_configuration`: the configuration,
and the two pointers into it as indices. -/
structure Cursor where
  config : Configuration
  interface : Option Nat
  alternateSetting : Option (Nat × Nat)

/-- Before the loop, in a configuration that is zero but for its descriptor. -/
def Cursor.start (descriptor : Bytes) : Cursor :=
  ⟨{ zeroConfiguration with configurationDescriptor := descriptor }, none, none⟩

/-- `interface != NULL && interface->interface_number == number`. -/
def Cursor.isCurrent (c : Cursor) (number : UInt8) : Bool :=
  match c.interface with
  | none => false
  | some i => (c.config.interfaces i).interfaceNumber = number

/-- Begin `config->interfaces[config->num_interfaces]`. -/
def Cursor.nextInterface (c : Cursor) (number : UInt8) : Except Fault Cursor :=
  let n := c.config.numInterfaces
  if n < usbMaxNumInterfaces then
    let interface := { c.config.interfaces n with interfaceNumber := number }
    .ok { c with
      config := { c.config.store n interface with numInterfaces := n + 1 }
      interface := some n }
  else .error .index

/-- Begin `interface->alternate_settings[interface->num_alternate_settings]`. -/
def Cursor.nextSetting (c : Cursor) (descriptor : Bytes) : Except Fault Cursor :=
  match c.interface with
  | none => .error .null
  | some i =>
    let interface := c.config.interfaces i
    let n := interface.numAlternateSettings
    if n < usbMaxNumAlternateSettings then
      let setting := { interface.alternateSettings n with interfaceDescriptor := descriptor }
      .ok { c with
        config := c.config.store i { interface.store n setting with numAlternateSettings := n + 1 }
        alternateSetting := some (i, n) }
    else .error .index

/-- Fill `alternate_setting->endpoints[alternate_setting->num_endpoints]`. -/
def Cursor.nextEndpoint (c : Cursor) (descriptor : Bytes) : Except Fault Cursor :=
  match c.alternateSetting with
  | none => .error .null
  | some (i, j) =>
    let setting := (c.config.interfaces i).alternateSettings j
    let n := setting.numEndpoints
    if n < usbMaxNumEndpoints then
      let setting := { setting with
        endpoints := Function.update setting.endpoints n descriptor
        numEndpoints := n + 1 }
      .ok { c with config := c.config.store i ((c.config.interfaces i).store j setting) }
    else .error .index

/-- The interface that a descriptor with `number` belongs to. -/
def Cursor.findInterface (c : Cursor) (number : UInt8) : Except Fault Cursor :=
  if c.isCurrent number then .ok c else c.nextInterface number

/-- The case of an interface descriptor. -/
def Cursor.takeInterface (c : Cursor) (buffer : Bytes) (offset : Nat) : Except Fault Cursor := do
  let number ← readByte buffer (offset + 2)
  let c ← c.findInterface number
  let descriptor ← readStruct buffer offset interfaceDescriptorLength
  c.nextSetting descriptor

/-- The case of an endpoint descriptor. -/
def Cursor.takeEndpoint (c : Cursor) (buffer : Bytes) (offset : Nat) : Except Fault Cursor := do
  let descriptor ← readStruct buffer offset endpointDescriptorLength
  c.nextEndpoint descriptor

/-- The `switch` on the type of the descriptor. -/
def Cursor.takeDescriptor (c : Cursor) (buffer : Bytes) (offset : Nat) : Except Fault Cursor := do
  let type ← readByte buffer (offset + 1)
  if type = usbDescriptorTypeInterface then c.takeInterface buffer offset
  else if type = usbDescriptorTypeEndpoint then c.takeEndpoint buffer offset
  else pure c

/-- The loop over the descriptors. It is given the number of times it may
go round, and is still running after them. -/
def scan (buffer : Bytes) (totalLength : Nat) : Nat → Nat → Cursor → Except Fault Cursor
  | 0, _, _ => .error .running
  | fuel + 1, offset, c =>
    if offset < totalLength then do
      let c ← c.takeDescriptor buffer offset
      let length ← readByte buffer offset
      scan buffer totalLength fuel (offset + length.toNat) c
    else .ok c

/-! ## Devices and ports

A function that returns -1 returns `none` here. -/

/-- `usb_get_descriptor` into a zeroed buffer of `size` bytes: the callback
copies as many bytes as were asked for. -/
def usbGetDescriptor (answer : Option Bytes) (size length : Nat) : Except Fault (Option Bytes) :=
  match answer with
  | none => .ok none
  | some page =>
    if length ≤ size then .ok (some fun i => if i < length then page i else 0)
    else .error .buffer

/-- `wTotalLength` of a configuration descriptor. -/
def wTotalLength (descriptor : Bytes) : Nat := (descriptor 2).toNat + 256 * (descriptor 3).toNat

/-- `bNumConfigurations` of a device descriptor. -/
def bNumConfigurations (descriptor : Bytes) : Nat := (descriptor 17).toNat

/-- `enumerate_configuration`, for a configuration that is still zero. -/
def enumerateConfiguration (fuel : Nat) (device : Answers) (i : Nat) :
    Except Fault (Option Configuration) :=
  if i < usbMaxNumConfigurations then do
    let descriptor ← usbGetDescriptor (device.configurationDescriptor i)
      configurationDescriptorLength configurationDescriptorLength
    match descriptor with
    | none => pure none
    | some descriptor =>
      let buffer ← usbGetDescriptor (device.allConfigurationDescriptors i) usbDataBufferSize
        (wTotalLength descriptor)
      match buffer with
      | none => pure none
      | some buffer =>
        let c ← scan buffer (wTotalLength descriptor) fuel 0 (.start descriptor)
        pure (some c.config)
  else .error .index

/-- The loop of `usb_enumerate_device` over the configurations from `i` on. -/
def enumerateConfigurations (fuel : Nat) (answers : Answers) :
    Nat → Nat → Device → Except Fault (Option Device)
  | 0, _, device => .ok (some device)
  | remaining + 1, i, device => do
    let config ← enumerateConfiguration fuel answers i
    match config with
    | none => pure none
    | some config =>
      enumerateConfigurations fuel answers remaining (i + 1)
        { device with configurations := Function.update device.configurations i config }

/-- `usb_enumerate_device`, for a device that is still zero. -/
def usbEnumerateDevice (fuel : Nat) (answers : Answers) : Except Fault (Option Device) := do
  let descriptor ← usbGetDescriptor answers.deviceDescriptor deviceDescriptorLength
    deviceDescriptorLength
  match descriptor with
  | none => pure none
  | some descriptor =>
    enumerateConfigurations fuel answers (bNumConfigurations descriptor) 0
      { zeroDevice with
        deviceDescriptor := descriptor
        numConfigurations := bNumConfigurations descriptor }

/-- `alloc_device`. -/
def allocDevice (driver : CoreDriver) : Except Fault CoreDriver :=
  if driver.numDevices < usbMaxNumDevices then
    .ok { devices := Function.update driver.devices driver.numDevices zeroDevice
          numDevices := driver.numDevices + 1 }
  else .error .index

/-- A device is found at the port that is not enumerated yet. -/
def PortStatus.isNew (status : PortStatus) : Bool :=
  status.currentConnectStatus && !status.portEnabled

/-- The loop of `usb_enumerate_root_hub` over the ports that are left. -/
def enumeratePorts (fuel : Nat) : List Port → CoreDriver → Except Fault (Option CoreDriver)
  | [], driver => .ok (some driver)
  | port :: ports, driver =>
    match port.status with
    | none => .ok none
    | some status =>
      if status.isNew then do
        let n := driver.numDevices
        let driver ← allocDevice driver
        if port.device.addressed then
          let device ← usbEnumerateDevice fuel port.device
          match device with
          | none => pure none
          | some device =>
            enumeratePorts fuel ports
              { driver with devices := Function.update driver.devices n device }
        else pure none
      else enumeratePorts fuel ports driver

/-- `usb_enumerate_root_hub`, called by `usb_init` on the zeroed driver. -/
def usbEnumerateRootHub (fuel : Nat) (ports : List Port) : Except Fault (Option CoreDriver) :=
  enumeratePorts fuel ports zeroDriver

end ZOs.UsbCore
