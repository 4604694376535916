import SonicCraft.Core.Buffer
import SonicCraft.Core.Framing
import SonicCraft.L2Software.EpInfo

/-!
# `MidiDescParser`: reading a configuration descriptor piece by piece

SOC/software/space_jam/include/usbh_midi.cpp:553-665 with the helpers of
parsetools.h:25-90 and parsetools.cpp:26-39. `USB::ctrlReq` hands the parser the
descriptor in chunks; a chunk may end anywhere, also inside a descriptor, and
`stateParseDescr` says where to go on. Configuration, interface and endpoint
descriptors are copied into `varBuffer` and looked at, all others are skipped.

Pointers into `varBuffer` are offsets. `none` is an access outside its 16 bytes,
after which nothing can be said of the program.
-/
namespace SonicCraft.L2.DescParser
open Usb

/-- `uint8_t varBuffer[16]` -/
abbrev VarBuf := Buffer 16 Byte

/-! ## `parsetools` -/

/-- `pValue` points into `varBuffer`. mirrors SOC/software/space_jam/include/parsetools.h:30-37 -/
structure MultiValueBuffer where
  valueSize : Byte
  pValue : Nat
  deriving DecidableEq, Repr

/-- mirrors SOC/software/space_jam/include/parsetools.h:39-60 -/
structure MultiByteValueParser where
  pBuf : Nat
  countDown : Byte
  valueSize : Byte
  deriving DecidableEq, Repr

def MultiByteValueParser.initialise (pbuf : MultiValueBuffer) : MultiByteValueParser where
  pBuf := pbuf.pValue
  countDown := pbuf.valueSize
  valueSize := pbuf.valueSize

/-- The `for` loop of `Parse`. mirrors SOC/software/space_jam/include/parsetools.cpp:31-32 -/
def MultiByteValueParser.copy (v : MultiByteValueParser) (buf : VarBuf) :
    List Byte → Option (MultiByteValueParser × VarBuf × List Byte)
  | [] => some (v, buf, [])
  | b :: bs =>
    if v.countDown = 0 then some (v, buf, b :: bs)
    else (buf.store (v.pBuf + (v.valueSize - v.countDown).toNat) b).bind fun buf' =>
      MultiByteValueParser.copy { v with countDown := v.countDown - 1 } buf' bs

/-- mirrors SOC/software/space_jam/include/parsetools.cpp:26-39 -/
def MultiByteValueParser.parse (v : MultiByteValueParser) (buf : VarBuf) (bs : List Byte) :
    Option (Bool × MultiByteValueParser × VarBuf × List Byte) :=
  (v.copy buf bs).map fun (v, buf, bs) =>
    if v.countDown = 0 then (true, { v with countDown := v.valueSize }, buf, bs)
    else (false, v, buf, bs)

/-- mirrors SOC/software/space_jam/include/parsetools.h:62-90 -/
structure ByteSkipper where
  nStage : Byte
  countDown : BitVec 16
  deriving DecidableEq, Repr

/-- Case 1 of `Skip`: drop bytes while there are some to drop. -/
def ByteSkipper.drop (k : ByteSkipper) : List Byte → Bool × ByteSkipper × List Byte
  | [] => if k.countDown = 0 then (true, { k with nStage := 0 }, []) else (false, k, [])
  | b :: bs =>
    if k.countDown = 0 then (true, { k with nStage := 0 }, b :: bs)
    else ByteSkipper.drop { k with countDown := k.countDown - 1 } bs

/-- mirrors SOC/software/space_jam/include/parsetools.h:76-89 -/
def ByteSkipper.skip (k : ByteSkipper) (bytesToSkip : BitVec 16) (bs : List Byte) :
    Bool × ByteSkipper × List Byte :=
  if k.nStage = 0 then ByteSkipper.drop { nStage := k.nStage + 1, countDown := bytesToSkip } bs
  else if k.nStage = 1 then k.drop bs
  else (k.countDown == 0, k, bs)

/-! ## The parser -/

/-- `USB_DESCRIPTOR_CONFIGURATION`, `_INTERFACE`, `_ENDPOINT` -/
def configuration : Byte := 0x02

def interface : Byte := 0x04

def endpoint : Byte := 0x05

/-- What a parser is made with: `isMidiSearch`, and the driver's transfer type mask. -/
structure Cfg where
  isMidiSearch : Bool
  bTransferTypeMask : Byte
  deriving DecidableEq, Repr

/-- What it finds out; `epInfo` is the driver's. -/
structure Found where
  confValue : Byte
  isGoodInterface : Bool
  nEPs : Byte
  epInfo : EpTable

/-- The values of `stateParseDescr`, after the labels of the `switch`. -/
inductive Stage where
  | case0
  | case1
  | case2
  | case3
  | case4
  deriving DecidableEq, Repr

structure St where
  theBuffer : MultiValueBuffer
  valParser : MultiByteValueParser
  theSkipper : ByteSkipper
  varBuffer : VarBuf
  stateParseDescr : Stage
  dscrLen : Byte
  dscrType : Byte
  found : Found

/-- The constructor; `varBuffer`, `confValue` and `isGoodInterface` come as they
are in memory. mirrors SOC/software/space_jam/include/usbh_midi.cpp:555-565 -/
def init (mem : VarBuf) (confValue : Byte) (isGoodInterface : Bool) (epInfo : EpTable) : St where
  theBuffer := ⟨0, 0⟩
  valParser := .initialise ⟨0, 0⟩
  theSkipper := ⟨0, 0⟩
  varBuffer := mem
  stateParseDescr := .case0
  dscrLen := 0
  dscrType := 0
  found := ⟨confValue, isGoodInterface, 0, epInfo⟩

/-- mirrors SOC/software/space_jam/include/usbh_midi.cpp:616-620 -/
def onConfiguration (ucd : VarBuf) (f : Found) : Found := { f with confValue := ucd 5 }

/-- `USB_CLASS_AUDIO`, `USB_SUBCLASS_MIDISTREAMING` -/
def isMidiStreaming (bInterfaceClass bInterfaceSubClass : Byte) : Bool :=
  bInterfaceClass == 0x01#8 && bInterfaceSubClass == 3#8

/-- mirrors SOC/software/space_jam/include/usbh_midi.cpp:621-646 -/
def onInterface (c : Cfg) (uid : VarBuf) (f : Found) : Found :=
  if c.isMidiSearch && !isMidiStreaming (uid 5) (uid 6) then f
  else { f with isGoodInterface := true, nEPs := if f.nEPs < 2 then 0 else f.nEPs }

/-- The fields of an endpoint descriptor in `varBuffer`; words are little-endian. -/
def endpointDescriptor (buf : VarBuf) : EndpointDescriptor where
  bEndpointAddress := buf 2
  bmAttributes := buf 3
  wMaxPacketSize := buf 5 ++ buf 4

/-- mirrors SOC/software/space_jam/include/usbh_midi.cpp:647-655 -/
def onEndpoint (c : Cfg) (buf : VarBuf) (f : Found) : Found :=
  if f.isGoodInterface && f.nEPs < 2 then
    let r := endpointXtract c.bTransferTypeMask (endpointDescriptor buf) f.epInfo
    { f with epInfo := r.2, nEPs := if r.1 then f.nEPs + 1 else f.nEPs }
  else f

/-- The lines after the inner `switch` of case 4. -/
def St.done (s : St) : St :=
  { s with theBuffer := { s.theBuffer with pValue := 0 }, stateParseDescr := .case0 }

/-- A case of the inner `switch` of case 4 that reads the rest of a descriptor
into `varBuffer` and looks at it. -/
def St.readBody (s : St) (look : VarBuf → Found → Found) (bs : List Byte) :
    Option (Bool × St × List Byte) :=
  (s.valParser.parse s.varBuffer bs).map fun (ok, v, buf, bs) =>
    let s := { s with valParser := v, varBuffer := buf }
    if ok then (true, St.done { s with found := look buf s.found }, bs) else (false, s, bs)

/-- mirrors SOC/software/space_jam/include/usbh_midi.cpp:614-662 -/
def case4 (c : Cfg) (s : St) (bs : List Byte) : Option (Bool × St × List Byte) :=
  if s.dscrType = configuration then s.readBody onConfiguration bs
  else if s.dscrType = interface then s.readBody (onInterface c) bs
  else if s.dscrType = endpoint then s.readBody (onEndpoint c) bs
  else
    let (ok, k, bs) := s.theSkipper.skip (s.dscrLen.setWidth 16 - 2) bs
    let s := { s with theSkipper := k }
    some (if ok then (true, s.done, bs) else (false, s, bs))

/-- mirrors SOC/software/space_jam/include/usbh_midi.cpp:600-613 -/
def case3 (c : Cfg) (s : St) (bs : List Byte) : Option (Bool × St × List Byte) :=
  let s := if s.dscrType = interface then { s with found := { s.found with isGoodInterface := false } }
    else s
  let theBuffer := { s.theBuffer with valueSize := s.dscrLen - 2 }
  case4 c { s with theBuffer := theBuffer
                   valParser := .initialise theBuffer
                   stateParseDescr := .case4 } bs

/-- mirrors SOC/software/space_jam/include/usbh_midi.cpp:591-599 -/
def case2 (c : Cfg) (s : St) (bs : List Byte) : Option (Bool × St × List Byte) :=
  case3 c { s with theBuffer := { s.theBuffer with pValue := 2 }, stateParseDescr := .case3 } bs

/-- mirrors SOC/software/space_jam/include/usbh_midi.cpp:584-590 -/
def case1 (c : Cfg) (s : St) (bs : List Byte) : Option (Bool × St × List Byte) :=
  (s.valParser.parse s.varBuffer bs).bind fun (ok, v, buf, bs) =>
    let s := { s with valParser := v, varBuffer := buf }
    if ok then
      (buf.load s.theBuffer.pValue).bind fun dscrLen =>
        (buf.load (s.theBuffer.pValue + 1)).bind fun dscrType =>
          case2 c { s with dscrLen := dscrLen, dscrType := dscrType, stateParseDescr := .case2 } bs
    else some (false, s, bs)

/-- mirrors SOC/software/space_jam/include/usbh_midi.cpp:579-583 -/
def case0 (c : Cfg) (s : St) (bs : List Byte) : Option (Bool × St × List Byte) :=
  let theBuffer := { s.theBuffer with valueSize := 2 }
  case1 c { s with theBuffer := theBuffer
                   valParser := .initialise theBuffer
                   stateParseDescr := .case1 } bs

/-- `ParseDescriptor`: whether it got to the end of a descriptor, and what it left
of the chunk. mirrors SOC/software/space_jam/include/usbh_midi.cpp:575-665 -/
def parseDescriptor (c : Cfg) (s : St) (bs : List Byte) : Option (Bool × St × List Byte) :=
  match s.stateParseDescr with
  | .case0 => case0 c s bs
  | .case1 => case1 c s bs
  | .case2 => case2 c s bs
  | .case3 => case3 c s bs
  | .case4 => case4 c s bs

/-- `Parse`. Every turn of its loop but the last takes a byte at least
(`reads_descriptors`), so the chunk's length bounds their number.
mirrors SOC/software/space_jam/include/usbh_midi.cpp:566-573 -/
def parse (c : Cfg) (s : St) (pbuf : List Byte) : Option St :=
  Framing.feed (parseDescriptor c) (pbuf.length + 1) s pbuf

end SonicCraft.L2.DescParser
