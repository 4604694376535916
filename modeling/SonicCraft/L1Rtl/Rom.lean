/-!
# Initialised memories

The ROMs (Modules/score_rom.sv, Modules/ROMs) register the addressed word at
each pixel clock. Several of them have more addresses than words; a read past the
end returns nothing the design can rely on, so here it may be any word.
-/
namespace SonicCraft.L1

/-- `logic [width-1:0] memory [0:depth-1]`, and what a read past the end gives. -/
structure Rom (depth width : Nat) where
  memory : Fin depth → BitVec width
  past : Nat → BitVec width

/-- `memory[address]` -/
def Rom.read {depth width : Nat} (m : Rom depth width) (address : Nat) : BitVec width :=
  if h : address < depth then m.memory ⟨address, h⟩ else m.past address

/-- The same word everywhere. -/
def Rom.fill {depth width : Nat} (w : BitVec width) : Rom depth width := ⟨fun _ => w, fun _ => w⟩

end SonicCraft.L1
