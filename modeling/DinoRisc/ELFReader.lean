import DinoRisc.Error
import DinoRisc.Library.Raises

/-!
The ELF reader. What the library ELFIO finds in a file is a value of `Elfio`: the header fields and
the sections that `ELFReader` asks for.
-/

namespace DinoRisc

namespace ELFIO

def ELFCLASS64 : ℕ := 2
def EM_RISCV : ℕ := 243
def ET_EXEC : ℕ := 2
def SHF_EXECINSTR : BitVec 64 := 0x4#64
def SHT_SYMTAB : ℕ := 2
def SHT_DYNSYM : ℕ := 11

structure Symbol where
  name : String
  value : BitVec 64
  deriving DecidableEq, Repr

/-- `getData` is `none` for a null pointer, and `symbols` has the result of `get_symbol` for each
index of a symbol table. -/
structure Section where
  getName : String
  getType : ℕ
  getFlags : BitVec 64
  getAddress : BitVec 64
  getData : Option (List (BitVec 8))
  symbols : List (Option Symbol)
  deriving DecidableEq, Repr

structure Elfio where
  getClass : ℕ
  getMachine : ℕ
  getType : ℕ
  getEntry : BitVec 64
  sections : List Section
  deriving DecidableEq, Repr

end ELFIO

open ELFIO

structure TextSection where
  virtualAddress : BitVec 64
  data : List (BitVec 8)
  deriving DecidableEq, Repr

structure ELFReader where
  reader : Elfio
  entryPoint : BitVec 64
  textSection : TextSection
  deriving DecidableEq, Repr

namespace ELFReader

def require (condition : Prop) [Decidable condition] (what : String) : Except Error Unit :=
  if condition then .ok () else .error (.elf what)

def found {α : Type} (result : Option α) (what : String) : Except Error α :=
  result.elim (.error (.elf what)) .ok

/-- `load` is `none` for a file that ELFIO does not load. -/
def loadFile (load : String → Option Elfio) (filePath : String) : Except Error ELFReader := do
  let reader ← found (load filePath) ("Failed to load ELF file: " ++ filePath)
  require (reader.getClass = ELFCLASS64) "Not a 64-bit ELF file"
  require (reader.getMachine = EM_RISCV)
    ("Not a RISC-V ELF file (machine type: " ++ toString reader.getMachine ++ ")")
  require (reader.getType = ET_EXEC) "Not an executable ELF file"
  let textSec ← found (reader.sections.find? fun sec => sec.getName = ".text")
    "No .text section found in ELF file"
  require (textSec.getFlags &&& SHF_EXECINSTR ≠ 0#64) ".text section is not executable"
  let data ← found textSec.getData "Failed to read .text section data"
  return ⟨reader, reader.getEntry, ⟨textSec.getAddress, data⟩⟩

def getFunctionAddress (functionName : String) (r : ELFReader) : Option (BitVec 64) :=
  (r.reader.sections.filter fun sec => sec.getType = SHT_SYMTAB ∨ sec.getType = SHT_DYNSYM).findSome?
    fun sec => sec.symbols.findSome? fun symbol =>
      symbol.bind fun symbol => if symbol.name = functionName then some symbol.value else none

end ELFReader

/-- The file is one that the reader accepts, and `textSec` its text section with these bytes. -/
structure ELFIO.Elfio.Executable (file : Elfio) (textSec : Section) (data : List (BitVec 8)) : Prop where
  fileClass : file.getClass = ELFCLASS64
  machine : file.getMachine = EM_RISCV
  fileType : file.getType = ET_EXEC
  text : file.sections.find? (fun sec => sec.getName = ".text") = some textSec
  executable : textSec.getFlags &&& SHF_EXECINSTR ≠ 0#64
  data : textSec.getData = some data

namespace ELFReader

variable {load : String → Option Elfio} {filePath : String} {r : ELFReader}

theorem require_eq_ok {condition : Prop} [Decidable condition] {what : String} {u : Unit} :
    require condition what = .ok u ↔ condition := by
  simp [require]

theorem found_eq_ok {α : Type} {result : Option α} {what : String} {a : α} :
    found result what = .ok a ↔ result = some a := by
  cases result <;> simp [found]

/-- The reader accepts the executables for RISC-V, and nothing else. -/
theorem loadFile_ok_iff : loadFile load filePath = .ok r ↔
    ∃ file textSec data, load filePath = some file ∧ file.Executable textSec data ∧
      r = ⟨file, file.getEntry, ⟨textSec.getAddress, data⟩⟩ := by
  simp only [loadFile, bind_eq_ok, require_eq_ok, found_eq_ok]
  constructor
  · rintro ⟨file, hload, -, hclass, -, hmachine, -, htype, textSec, htext, -, hexec, data, hdata, h⟩
    exact ⟨file, textSec, data, hload, ⟨hclass, hmachine, htype, htext, hexec, hdata⟩,
      (Except.ok.inj h).symm⟩
  · rintro ⟨file, textSec, data, hload, ⟨hclass, hmachine, htype, htext, hexec, hdata⟩, rfl⟩
    exact ⟨file, hload, (), hclass, (), hmachine, (), htype, textSec, htext, (), hexec, data, hdata,
      rfl⟩

/-- An exception of the reader. -/
def IsElf (e : Error) : Prop := ∃ what, e = .elf what

theorem require_raises {condition : Prop} [Decidable condition] {what : String} :
    Raises IsElf (require condition what) :=
  .ite (fun _ => .ok _) fun _ => .error ⟨what, rfl⟩

theorem found_raises {α : Type} {result : Option α} {what : String} :
    Raises IsElf (found result what) := by
  cases result with
  | none => exact .error ⟨what, rfl⟩
  | some a => exact .ok a

theorem loadFile_raises (load : String → Option Elfio) (filePath : String) :
    Raises IsElf (loadFile load filePath) :=
  found_raises.bind fun _ _ => require_raises.bind fun _ _ => require_raises.bind fun _ _ =>
    require_raises.bind fun _ _ => found_raises.bind fun _ _ => require_raises.bind fun _ _ =>
    found_raises.bind fun _ _ => .ok _

end ELFReader

end DinoRisc
