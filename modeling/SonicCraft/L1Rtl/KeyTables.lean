/-!
# From a `keyvol` register to an oscillator's inputs

`MIDIKeyConverter` (Modules/MIDIkeyConverter.sv) turns the pitch byte into an
offset from C4, or 24 when it is out of the two octaves; `FrequencyMapper`
(Modules/FrequencyMapper.sv) turns the offset into a frequency register value.
Both are combinational.
-/
namespace SonicCraft.L1.KeyTables

/-- mirrors Modules/MIDIkeyConverter.sv:11-23 -/
def midiKeyConverter (pitch : BitVec 8) : BitVec 5 :=
  if 47#8 < pitch ∧ pitch < 72#8 then (pitch - 48#8).extractLsb' 0 5 else 0b11000#5

/-- `Freq_ROM`. mirrors Modules/FrequencyMapper.sv:11-36 -/
def freqRom : List (BitVec 24) :=
  [0b000000011000010011001101#24, 0b000000011001101111101001#24, 0b000000011011010001101010#24,
   0b000000011100111001011100#24, 0b000000011110100111011011#24, 0b000000100000011011111011#24,
   0b000000100010010111011001#24, 0b000000100100011010001010#24, 0b000000100110100100101010#24,
   0b000000101000110111011111#24, 0b000000101011010010111111#24, 0b000000101101110111110001#24,
   0b000000110000100110011010#24, 0b000000110011011111010010#24, 0b000000110110100011010100#24,
   0b000000111001110010111000#24, 0b000000111101001110110110#24, 0b000001000000110111110110#24,
   0b000001000100101110110010#24, 0b000001001000110100010100#24, 0b000001001101001001010100#24,
   0b000001010001101110111110#24, 0b000001010110100101111110#24, 0b000001011011101111100010#24,
   0x000000#24]

/-- `Freq_ROM[Offset]`; past the 25 entries it is undefined, which no pitch can
reach (`midiKeyConverter_lt`). mirrors Modules/FrequencyMapper.sv:39 -/
def frequencyMapper (offset : BitVec 5) : BitVec 24 := freqRom.getD offset.toNat 0

theorem midiKeyConverter_lt (pitch : BitVec 8) :
    (midiKeyConverter pitch).toNat < freqRom.length := by
  show (midiKeyConverter pitch).toNat < 25
  unfold midiKeyConverter
  split
  · rename_i h
    obtain ⟨h1, h2⟩ := h
    rw [BitVec.lt_def] at h1 h2
    simp only [BitVec.toNat_ofNat] at h1 h2
    rw [BitVec.extractLsb'_toNat, BitVec.toNat_sub]
    simp only [BitVec.toNat_ofNat, Nat.shiftRight_zero]
    omega
  · decide

end SonicCraft.L1.KeyTables
