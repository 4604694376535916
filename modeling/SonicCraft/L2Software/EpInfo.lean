import Mathlib.Logic.Function.Basic
import Mathlib.Data.Fin.Tuple.Basic

/-!
# The endpoint table of the MIDI driver

SOC/software/space_jam/include/address.h:38-51, usbh_midi.cpp:85-95,668-698.
`USBH_MIDI` keeps three records: endpoint 0, the data IN endpoint and the data
OUT endpoint. Enumeration fills the last two from endpoint descriptors;
`recvBuf` has 64 bytes, so a record may not ask for more (`bounded_xtract`).
-/
namespace SonicCraft.L2.Usb

abbrev Byte := BitVec 8

/-- mirrors SOC/software/space_jam/include/address.h:38-51 -/
structure EpInfo where
  epAddr : Byte
  maxPktSize : Byte
  bmSndToggle : Bool
  bmRcvToggle : Bool
  bmNakPower : BitVec 6
  deriving DecidableEq, Repr

/-- `EpInfo epInfo[MIDI_MAX_ENDPOINTS]` -/
abbrev EpTable := Fin 3 → EpInfo

abbrev epControlIndex : Fin 3 := 0

def epDataInIndex : Fin 3 := 1

def epDataOutIndex : Fin 3 := 2

/-- `MIDI_EVENT_PACKET_SIZE` -/
abbrev midiEventPacketSize : Nat := 64

/-- The constructor; the toggles come as they are in memory.
mirrors SOC/software/space_jam/include/usbh_midi.cpp:85-95 -/
def EpTable.init (mem : EpTable) : EpTable := fun i =>
  { mem i with
    epAddr := 0
    maxPktSize := if i = 0 then 8 else 0
    bmNakPower := if i = 0 then 15 else 1 }

/-- The first of the three records. mirrors SOC/software/space_jam/include/Usb.cpp:44-59 -/
def getEpInfoEntry (t : EpTable) (ep : Byte) : Option (Fin 3) := Fin.find? fun i => (t i).epAddr == ep

/-- An endpoint descriptor, from its third byte on. -/
structure EndpointDescriptor where
  bEndpointAddress : Byte
  bmAttributes : Byte
  wMaxPacketSize : BitVec 16
  deriving DecidableEq, Repr

/-- Bulk, under the mask the device asks for. -/
def EndpointDescriptor.selected (bTransferTypeMask : Byte) (pep : EndpointDescriptor) : Bool :=
  pep.bmAttributes &&& bTransferTypeMask == 0x02#8

def EndpointDescriptor.index (pep : EndpointDescriptor) : Fin 3 :=
  if pep.bEndpointAddress &&& 0x80#8 = 0x80#8 then epDataInIndex else epDataOutIndex

/-- mirrors SOC/software/space_jam/include/usbh_midi.cpp:689-695 -/
def EndpointDescriptor.fill (pep : EndpointDescriptor) (e : EpInfo) : EpInfo :=
  { e with
    epAddr := pep.bEndpointAddress &&& 0x0F#8
    maxPktSize := if pep.wMaxPacketSize.toNat > midiEventPacketSize then 64#8
      else pep.wMaxPacketSize.setWidth 8 }

/-- `EndpointXtract`. mirrors SOC/software/space_jam/include/usbh_midi.cpp:668-698 -/
def endpointXtract (bTransferTypeMask : Byte) (pep : EndpointDescriptor) (t : EpTable) :
    Bool × EpTable :=
  if pep.selected bTransferTypeMask then
    (true, Function.update t pep.index (pep.fill (t pep.index)))
  else (false, t)

/-- Neither data record asks for more than a message buffer holds. -/
def EpTable.Bounded (t : EpTable) : Prop :=
  ∀ i, i ≠ 0 → (t i).maxPktSize.toNat ≤ midiEventPacketSize

theorem EpTable.bounded_init (mem : EpTable) : (EpTable.init mem).Bounded := by
  intro i hi
  simp only [EpTable.init, hi, if_false]
  decide

theorem fill_bounded (pep : EndpointDescriptor) (e : EpInfo) :
    (pep.fill e).maxPktSize.toNat ≤ midiEventPacketSize := by
  simp only [EndpointDescriptor.fill]
  split
  · decide
  · rename_i h
    rw [BitVec.toNat_setWidth]
    have := Nat.mod_le pep.wMaxPacketSize.toNat (2 ^ 8)
    omega

theorem bounded_xtract (m : Byte) (pep : EndpointDescriptor) {t : EpTable} (h : t.Bounded) :
    (endpointXtract m pep t).2.Bounded := by
  unfold endpointXtract
  split
  · intro i hi0
    show (Function.update t pep.index (pep.fill (t pep.index)) i).maxPktSize.toNat ≤ _
    by_cases hi : i = pep.index
    · rw [hi, Function.update_self]; exact fill_bounded pep _
    · rw [Function.update_of_ne hi]; exact h i hi0
  · exact h

end SonicCraft.L2.Usb
