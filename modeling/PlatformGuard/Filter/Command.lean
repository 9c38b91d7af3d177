import PlatformGuard.Bits
import PlatformGuard.Filter

/-!
# Command tables

The SPI monitor lets a command pass if one of the thirty-two slots of its table enables the opcode.
A slot is a word: the opcode in the lowest byte, the shape of the command above it, and three bits that
say whether the command is valid, valid once, and whether the slot is locked.  Only commands on the
safe list can be added.
-/

namespace PlatformGuard.Filter

/-! ### Commands and their words -/

/-- A command and what the monitor has to know of it. -/
structure Command where
  opcode : UInt8
  generic : Bool := true
  write : Bool := false
  read : Bool := false
  memory : Bool := false
  dataMode : UInt32 := 0
  dummyCycles : UInt32 := 0
  programSize : UInt32 := 0
  addressLength : UInt32 := 0
  addressMode : UInt32 := 0
  deriving DecidableEq, Repr

namespace Command

/-- The word of the command in a slot, without the bits that say when it is valid. -/
def word (c : Command) : UInt32 :=
  c.generic.toUInt32 <<< 29 ||| c.write.toUInt32 <<< 28 ||| c.read.toUInt32 <<< 27
    ||| c.memory.toUInt32 <<< 26 ||| c.dataMode <<< 24 ||| c.dummyCycles <<< 16
    ||| c.programSize <<< 13 ||| c.addressLength <<< 10 ||| c.addressMode <<< 8
    ||| c.opcode.toUInt32

/-- Reads memory. -/
def readMemory (dataMode dummyCycles addressLength : UInt32) (opcode : UInt8) : Command :=
  { opcode, read := true, memory := true, dataMode, dummyCycles, addressLength, addressMode := 1 }

/-- Programs or erases memory. -/
def writeMemory (dataMode programSize addressLength : UInt32) (opcode : UInt8) : Command :=
  { opcode, write := true, memory := true, dataMode, programSize, addressLength, addressMode := 1 }

/-- Reads a register. -/
def readRegister (opcode : UInt8) : Command := { opcode, read := true, dataMode := 1 }

/-- Writes a register. -/
def writeRegister (opcode : UInt8) : Command := { opcode, write := true, dataMode := 1 }

/-- Is an opcode and nothing else. -/
def bare (opcode : UInt8) : Command := { opcode }

/-- Changes the length of addresses. -/
def switchMode (opcode : UInt8) : Command := { opcode, generic := false }

end Command

/-- The opcode that enters the mode of four-byte addresses. -/
def enterFourByte : UInt8 := 0xb7

/-- The opcode that leaves the mode of four-byte addresses. -/
def leaveFourByte : UInt8 := 0xe9

open Command in
/-- The commands that may ever be allowed.  Erasing the whole chip is not among them. -/
def safeCommands : List Command :=
  [readMemory 1 0 3 0x03, readMemory 1 0 4 0x13,
    readMemory 1 8 3 0x0b, readMemory 1 8 4 0x0c,
    readMemory 2 8 3 0x3b, readMemory 2 8 4 0x3c,
    readMemory 3 8 3 0x6b, readMemory 3 8 4 0x6c,
    writeMemory 1 1 3 0x02, writeMemory 1 1 4 0x12,
    writeMemory 3 1 3 0x32, writeMemory 3 1 4 0x34,
    writeMemory 0 1 3 0x20, writeMemory 0 1 4 0x21,
    writeMemory 0 5 3 0xd8, writeMemory 0 5 4 0xdc,
    bare 0x06, bare 0x04,
    readRegister 0x05, readRegister 0x35,
    writeRegister 0x01, writeRegister 0x31,
    readRegister 0x15,
    switchMode enterFourByte, switchMode leaveFourByte,
    { readRegister 0x5a with dummyCycles := 8, addressLength := 3, addressMode := 1 },
    readRegister 0x9f]

/-- The word of an opcode on the safe list. -/
def safeWord? (opcode : UInt8) : Option UInt32 :=
  (safeCommands.find? fun c => c.opcode == opcode).map Command.word

/-! ### Bits of a slot -/

/-- Bit of a slot: the command may be used once. -/
def validOnceBit : UInt32 := 0x80000000

/-- Bit of a slot: the command may be used. -/
def validBit : UInt32 := 0x40000000

/-- Bit of a slot: the slot does not change any more. -/
def lockBit : UInt32 := 0x00800000

def isLockedWord (w : UInt32) : Bool := w &&& lockBit != 0

/-- Whether a word is empty, locked or not. -/
def isFreeWord (w : UInt32) : Bool := w &&& ~~~lockBit == 0

/-- Whether a word holds an opcode, valid or not. -/
def holds (opcode : UInt8) (w : UInt32) : Bool :=
  !isFreeWord w && w &&& 0xff == opcode.toUInt32

/-- Whether a word lets its command pass. -/
def isValidWord (w : UInt32) : Bool := w &&& (validOnceBit ||| validBit) != 0

/-- How long a command stays allowed. -/
inductive Validity where
  /-- Until it is removed. -/
  | always
  /-- For one transaction. -/
  | once
  deriving DecidableEq, Repr

def Validity.bit : Validity → UInt32
  | always => validBit
  | once => validOnceBit

/-! ### Tables -/

/-- The number of slots. -/
def slotCount : Nat := 32

/-- The words of a command table. -/
abbrev CommandWords := Vector UInt32 slotCount

/-- The slots that are kept for the commands that change the length of addresses. -/
def reservedSlot? (opcode : UInt8) : Option (Fin slotCount) :=
  if opcode = enterFourByte then some ⟨0, by decide⟩
  else if opcode = leaveFourByte then some ⟨1, by decide⟩
  else none

/-- The first slot for all other commands. -/
def firstGenericSlot : Nat := 4

/-- A table of allowed commands. -/
structure CommandTable where
  words : CommandWords
  deriving DecidableEq, Repr

namespace CommandTable

/-- The table that allows nothing. -/
def empty : CommandTable := ⟨Vector.replicate slotCount 0⟩

/-- The first slot that holds an opcode. -/
def find? (t : CommandTable) (opcode : UInt8) : Option (Fin slotCount) :=
  (List.finRange slotCount).find? fun i => holds opcode t.words[i]

/-- The first empty slot that is not kept for a certain command. -/
def firstFree? (t : CommandTable) : Option (Fin slotCount) :=
  (List.finRange slotCount).find? fun i => decide (firstGenericSlot ≤ i.val) && isFreeWord t.words[i]

/-- The slot for an opcode: the one that holds it, or else the one that it would go to. -/
def slotFor (t : CommandTable) (opcode : UInt8) : Except Error (Fin slotCount) :=
  match t.find? opcode <|> reservedSlot? opcode <|> t.firstFree? with
  | some i => .ok i
  | none => .error .tableFull

/-- The table with another word in a slot, unless the slot is locked. -/
def put (t : CommandTable) (i : Fin slotCount) (w : UInt32) : Except Error CommandTable :=
  if isLockedWord t.words[i] then .error .locked else .ok ⟨t.words.set i w⟩

/-- Allows a command, and gives its slot. -/
def add (t : CommandTable) (opcode : UInt8) (validity : Validity) :
    Except Error (CommandTable × Fin slotCount) := do
  let some w := safeWord? opcode | throw (.commandNotAllowed opcode)
  let i ← t.slotFor opcode
  let t ← t.put i (w ||| validity.bit)
  return (t, i)

/-- Empties the slot of a command; nothing happens if there is none. -/
def remove (t : CommandTable) (opcode : UInt8) : Except Error CommandTable :=
  match t.find? opcode with
  | some i => t.put i 0
  | none => .ok t

/-- Locks the slot of a command. -/
def lock (t : CommandTable) (opcode : UInt8) : Except Error CommandTable :=
  match t.find? opcode with
  | some i => .ok ⟨t.words.set i (t.words[i] ||| lockBit)⟩
  | none => .error .notPresent

/-- Locks every slot, the empty ones included. -/
def lockAll (t : CommandTable) : CommandTable := ⟨t.words.map (· ||| lockBit)⟩

/-- Whether a command is allowed. -/
def contains (t : CommandTable) (opcode : UInt8) : Bool :=
  (t.find? opcode).any fun i => isValidWord t.words[i]

/-- Whether the slot of a command is locked. -/
def isLocked (t : CommandTable) (opcode : UInt8) : Bool :=
  (t.find? opcode).any fun i => isLockedWord t.words[i]

end CommandTable

end PlatformGuard.Filter
