import SonicCraft.Core.LTS
import SonicCraft.Core.Pool
import SonicCraft.L1Rtl.Pio
import SonicCraft.L2Software.MidiLoop
import SonicCraft.L2Software.VoiceAlloc
import SonicCraft.Bugs.StuckNote
import SonicCraft.L1Rtl.RhythmGame
import SonicCraft.Bugs.PendingStart
import SonicCraft.Bugs.StaleTime
import SonicCraft.Core.Width
import SonicCraft.L1Rtl.PhaseOsc
import SonicCraft.Core.Serial
import SonicCraft.L1Rtl.I2S
import SonicCraft.L3System.AudioPath
import SonicCraft.Bugs.MixSign
import SonicCraft.L1Rtl.KeyTables
import SonicCraft.L3System.StereoFrames
import SonicCraft.L3System.Synth
import SonicCraft.L1Rtl.Rom
import SonicCraft.L1Rtl.VgaController
import SonicCraft.L3System.ScoreAddress
import SonicCraft.L3System.VideoPath
import SonicCraft.Bugs.ScoreOverrun
import SonicCraft.L1Rtl.ColorMapper
import SonicCraft.Bugs.LateColumn
import SonicCraft.Bugs.SilentVoice
import SonicCraft.Core.Accumulator
import SonicCraft.L1Rtl.OscTrace
import SonicCraft.Bugs.LostPress
import SonicCraft.Bugs.FrozenPhase
import SonicCraft.L3System.PianoLayer
import SonicCraft.Bugs.SidebarEdge
import SonicCraft.Core.PeakBound
import SonicCraft.L1Rtl.RootSquareSum
import SonicCraft.Core.Framing
import SonicCraft.L2Software.EpInfo
import SonicCraft.L2Software.DescParser
import SonicCraft.Core.Buffer
import SonicCraft.L2Software.Descriptors
import SonicCraft.L2Software.Interfaces
import SonicCraft.Core.Refill
import SonicCraft.L2Software.MidiReceive
import SonicCraft.Core.Client
import SonicCraft.L2Software.UsbTransfer
import SonicCraft.L2Software.OutTransfer
import SonicCraft.L2Software.ControlRead
import SonicCraft.Core.Deadline
import SonicCraft.L2Software.UsbTask
import SonicCraft.L2Software.MidiInit
import SonicCraft.L2Software.MidiPoll
import SonicCraft.L2Software.SysEx
import SonicCraft.L3System.MidiStream
import SonicCraft.L3System.MidiPlug
import SonicCraft.L3System.MidiBus
import SonicCraft.L3System.UsbSynth
