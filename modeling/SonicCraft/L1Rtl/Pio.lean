/-!
# The 16-bit output PIO behind each `keyvol` pointer

`keyvol_0` … `keyvol_3` are instances of `finalsoc_hex_digits_pio`
(SOC/finalsoc/synthesis/finalsoc.v:224-265), one 16-bit register each. The CPU
reaches them at 0x1100, 0x10f0, 0x10e0 and 0x10d0; a 32-bit store keeps the low
16 bits and a load returns them zero-extended.
-/
namespace SonicCraft.L1.Pio

/-- The register after a clock edge; `reset_n` is tied high after power-up.
mirrors SOC/finalsoc/synthesis/submodules/finalsoc_hex_digits_pio.v:54-60 -/
def posedge (chipselect writeN : Bool) (address : BitVec 2) (writedata : BitVec 32)
    (dataOut : BitVec 16) : BitVec 16 :=
  if chipselect && !writeN && address == 0 then writedata.setWidth 16 else dataOut

/-- mirrors SOC/finalsoc/synthesis/submodules/finalsoc_hex_digits_pio.v:53,63 -/
def readdata (address : BitVec 2) (dataOut : BitVec 16) : BitVec 32 :=
  (if address == 0 then dataOut else 0).setWidth 32

/-- `*(note_vol_array[i]) = w`: a write to word 0. -/
def store (w : BitVec 32) (dataOut : BitVec 16) : BitVec 16 := posedge true false 0 w dataOut

/-- `*(note_vol_array[i])` as a value: a read of word 0. -/
def load (dataOut : BitVec 16) : BitVec 32 := readdata 0 dataOut

@[simp] theorem store_eq (w : BitVec 32) (d : BitVec 16) : store w d = w.setWidth 16 := rfl

@[simp] theorem load_toNat (d : BitVec 16) : (load d).toNat = d.toNat := by
  have := d.isLt
  simp only [load, readdata, BEq.rfl, if_true, BitVec.toNat_setWidth]
  omega

/-- A register reads back what was last written to it, cut to 16 bits. -/
theorem load_store (w : BitVec 32) (d : BitVec 16) :
    (load (store w d)).toNat = w.toNat % 65536 := by
  rw [load_toNat, store_eq, BitVec.toNat_setWidth]

end SonicCraft.L1.Pio
