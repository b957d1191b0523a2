import DinoRisc.ELFReader
import DinoRisc.LeafProgram
import DinoRisc.TranslationErrors

/-! The command line program, `main` of `DinoRISCMain.cpp`. -/

namespace DinoRisc

open ELFIO

/-! ### Arguments -/

def isspace (c : Char) : Bool := c.toNat = 32 || (9 ≤ c.toNat && c.toNat ≤ 13)

/-- The sign of a number, and what follows it. -/
def takeSign : List Char → Bool × List Char
  | '-' :: cs => (true, cs)
  | '+' :: cs => (false, cs)
  | cs => (false, cs)

/-- `std::stoull`; `none` where it throws. -/
def stoull (str : String) : Option (BitVec 64) :=
  let (negative, cs) := takeSign (str.toList.dropWhile isspace)
  let digits := cs.takeWhile Char.isDigit
  let value := Nat.ofDigitChars 10 digits 0
  if digits = [] ∨ 2 ^ 64 ≤ value then none
  else some (if negative then -BitVec.ofNat 64 value else BitVec.ofNat 64 value)

inductive Sign : Bool → List Char → Prop
  | none : Sign false []
  | plus : Sign false ['+']
  | minus : Sign true ['-']

section

variable {cs digits rest : List Char} {negative : Bool} {signs : List Char}

theorem digit_toNat {c : Char} (h : c.isDigit = true) : 48 ≤ c.toNat := by
  simp only [Char.isDigit, Bool.and_eq_true, decide_eq_true_eq] at h
  exact h.1

theorem isspace_digit {c : Char} (h : c.isDigit = true) : isspace c = false := by
  have hle := digit_toNat h
  simp only [isspace, Bool.or_eq_false_iff, Bool.and_eq_false_iff, decide_eq_false_iff_not]
  omega

theorem takeSign_digit {c : Char} (h : c.isDigit = true) : takeSign (c :: cs) = (false, c :: cs) := by
  unfold takeSign
  split
  · rename_i heq
    cases heq
    cases h
  · rename_i heq
    cases heq
    cases h
  · rfl

theorem takeSign_append (hsign : Sign negative signs) (hne : digits ≠ [])
    (hdigits : ∀ c ∈ digits, c.isDigit = true) (rest : List Char) :
    takeSign (signs ++ (digits ++ rest)) = (negative, digits ++ rest) := by
  cases hsign with
  | none =>
    obtain ⟨c, digits, rfl⟩ := List.exists_cons_of_ne_nil hne
    exact takeSign_digit (hdigits c List.mem_cons_self)
  | plus => rfl
  | minus => rfl

theorem exists_sign (cs : List Char) : ∃ signs, Sign (takeSign cs).1 signs ∧
    cs = signs ++ (takeSign cs).2 := by
  unfold takeSign
  split
  · exact ⟨_, .minus, rfl⟩
  · exact ⟨_, .plus, rfl⟩
  · exact ⟨_, .none, rfl⟩

theorem dropWhile_isspace (hsign : Sign negative signs) (hne : digits ≠ [])
    (hdigits : ∀ c ∈ digits, c.isDigit = true) (rest : List Char) :
    (signs ++ (digits ++ rest)).dropWhile isspace = signs ++ (digits ++ rest) := by
  cases hsign with
  | none =>
    obtain ⟨c, digits, rfl⟩ := List.exists_cons_of_ne_nil hne
    simp [isspace_digit (hdigits c List.mem_cons_self)]
  | plus => rfl
  | minus => rfl

theorem takeWhile_isDigit (hdigits : ∀ c ∈ digits, c.isDigit = true)
    (hrest : ∀ c ∈ rest.head?, c.isDigit = false) :
    (digits ++ rest).takeWhile Char.isDigit = digits := by
  rw [List.takeWhile_append_of_pos hdigits]
  cases rest with
  | nil => simp
  | cons c rest => simp [hrest c rfl]

/-- A number is read after spaces and a sign; what follows its digits is ignored. -/
theorem stoull_eq_some_iff {str : String} {v : BitVec 64} : stoull str = some v ↔
    ∃ spaces signs digits rest negative, str.toList = spaces ++ (signs ++ (digits ++ rest)) ∧
      (∀ c ∈ spaces, isspace c = true) ∧ Sign negative signs ∧ digits ≠ [] ∧
      (∀ c ∈ digits, c.isDigit = true) ∧ (∀ c ∈ rest.head?, c.isDigit = false) ∧
      Nat.ofDigitChars 10 digits 0 < 2 ^ 64 ∧
      v = if negative then -BitVec.ofNat 64 (Nat.ofDigitChars 10 digits 0)
        else BitVec.ofNat 64 (Nat.ofDigitChars 10 digits 0) := by
  simp only [stoull, Option.ite_none_left_eq_some, not_or, Nat.not_le, Option.some.injEq]
  constructor
  · rintro ⟨⟨hne, hlt⟩, rfl⟩
    obtain ⟨signs, hsign, hcs⟩ := exists_sign (str.toList.dropWhile isspace)
    refine ⟨str.toList.takeWhile isspace, signs, _,
      (takeSign (str.toList.dropWhile isspace)).2.dropWhile Char.isDigit, _, ?_,
      fun c hc => List.mem_takeWhile_imp hc, hsign, hne, fun c hc => List.mem_takeWhile_imp hc,
      fun c hc => ?_, hlt, rfl⟩
    · rw [List.takeWhile_append_dropWhile, ← hcs, List.takeWhile_append_dropWhile]
    · have hhead := List.head?_dropWhile_not Char.isDigit (takeSign (str.toList.dropWhile isspace)).2
      rw [hc] at hhead
      exact hhead
  · rintro ⟨spaces, signs, digits, rest, negative, heq, hspaces, hsign, hne, hdigits, hrest, hlt, rfl⟩
    rw [heq, List.dropWhile_append_of_pos hspaces, dropWhile_isspace hsign hne hdigits,
      takeSign_append hsign hne hdigits, takeWhile_isDigit hdigits hrest]
    exact ⟨⟨hne, hlt⟩, rfl⟩

theorem stoull_toString (v : BitVec 64) : stoull (toString v.toNat) = some v := by
  refine stoull_eq_some_iff.mpr ⟨[], [], Nat.toDigits 10 v.toNat, [], false, ?_, by simp, .none,
    Nat.toDigits_ne_nil, fun c => Nat.isDigit_of_mem_toDigits (by decide) (by decide), by simp, ?_, ?_⟩
  · rw [Nat.toString_eq_ofList_toDigits]
    simp
  · rw [Nat.ofDigitChars_ten_toDigits]
    exact v.isLt
  · rw [Nat.ofDigitChars_ten_toDigits]
    simp

end

/-- The arguments of the function, or the first one that is no number. -/
def parseArguments (args : List String) : Except String (List (BitVec 64)) :=
  (args.take 8).mapM fun arg => (stoull arg).elim (.error arg) .ok

/-! ### The program -/

namespace BinaryTranslator

/-- The constructor; `shadowMem` is `none` if `mmap` fails. -/
def construct (shadowMem : Option (BitVec 64)) (t : BinaryTranslator) :
    Except Error BinaryTranslator :=
  shadowMem.elim (.error (.runtime "Failed to allocate shadow memory")) fun shadowMem =>
    .ok (t.initializeTranslator shadowMem)

/-- `executeFunction`, with `loadRISCVBinary`. -/
def executeFile (load : String → Option Elfio) (order : List ℕ → List ℕ)
    (inputPath functionName : String) (t : BinaryTranslator) :
    Except Error (BitVec 32 × BinaryTranslator) := do
  let elfReader ← ELFReader.loadFile load inputPath
  executeFunction order elfReader.textSection.data elfReader.textSection.virtualAddress functionName
    (elfReader.getFunctionAddress functionName) t

end BinaryTranslator

/-- What the program leaves: its status, and what `main` itself prints. -/
structure Exit where
  status : ℕ
  out : String
  err : String
  deriving DecidableEq, Repr

/-- `none` for what is no `dinorisc::Error`. -/
def Error.what : Error → Option String
  | .elf what | .decoding what | .unsupportedInstruction what | .encoding what | .lowering what
  | .runtime what => some what
  | .badVariantAccess | .outOfBounds | .hostFault => none

def usage (programName : String) : String :=
  "Usage: " ++ programName ++ " <riscv_binary> <function_name> [arg1] [arg2] ...\n" ++
  "Executes RISC-V 64-bit binaries using dynamic binary translation\n" ++
  "Arguments are passed to the function as integer parameters (max 8)\n"

/-- The `try` block of `main`, with the exceptions that it catches. -/
def report (functionName : String) : Except Error (BitVec 32 × BinaryTranslator) → Except Error Exit
  | .ok (functionResult, _) =>
    .ok ⟨0, "Function " ++ functionName ++ " returned: " ++ toString functionResult.toInt ++ "\n", ""⟩
  | .error e => e.what.elim (.error e) fun what => .ok ⟨1, "", "Error: " ++ what ++ "\n"⟩

/-- An error of the result is one that `main` does not catch. -/
def main (load : String → Option Elfio) (order : List ℕ → List ℕ) (shadowMem : Option (BitVec 64))
    (t : BinaryTranslator) : List String → Except Error Exit
  | _ :: inputPath :: functionName :: args =>
    match parseArguments args with
    | .error arg =>
      .ok ⟨1, "", "Error: Invalid argument '" ++ arg ++ "'. Arguments must be integers.\n"⟩
    | .ok functionArgs => report functionName <| (t.construct shadowMem).bind fun translator =>
        (translator.setArgumentRegisters functionArgs).executeFile load order inputPath functionName
  | programName :: _ => .ok ⟨1, usage programName, ""⟩
  -- `argv[0]` is a null pointer
  | [] => .error .outOfBounds

theorem parseArguments_toString {args : List (BitVec 64)} (h : args.length ≤ 8) :
    parseArguments (args.map fun arg => toString arg.toNat) = .ok args := by
  have hlength : (args.map fun arg => toString arg.toNat).length ≤ 8 := by rwa [List.length_map]
  rw [parseArguments, List.take_of_length_le hlength, List.mapM_map]
  have hone : ∀ arg ∈ args, (stoull (toString arg.toNat)).elim
      (.error (toString arg.toNat) : Except String (BitVec 64)) .ok = .ok arg := fun arg _ => by
    rw [stoull_toString]
    rfl
  exact (mapM_ok hone).trans (congrArg Except.ok (List.map_id args))

namespace BinaryTranslator

variable {load : String → Option Elfio} {order : List ℕ → List ℕ} {inputPath functionName : String}
  {t : BinaryTranslator} {pc : BitVec 64}

theorem executeFile_eq {r : ELFReader} (h : ELFReader.loadFile load inputPath = .ok r) :
    t.executeFile load order inputPath functionName =
      executeFunction order r.textSection.data r.textSection.virtualAddress functionName
        (r.getFunctionAddress functionName) t := by
  rw [executeFile, h]
  rfl

/-- An error that `main` catches, or a step outside the defined behaviour of the program. -/
def Expected (e : Error) : Prop := (∃ what, e.what = some what) ∨ e = .outOfBounds ∨ e = .hostFault

theorem translateBlock_raises (horder : ∀ rs, (order rs).Perm rs) :
    Raises Expected (t.translateBlock order pc) := by
  intro e h
  cases Fails.of_error horder h with
  | fetch => exact .inr (.inl rfl)
  | bounds | decode | lift | allocate => exact .inl ⟨_, rfl⟩

theorem run_raises (permitted : A64.Access → Bool) (machineCode : List (BitVec 8)) (cpu : A64.Cpu) :
    Raises (· = Error.hostFault) (ExecutionEngine.run permitted machineCode cpu) := by
  fun_induction ExecutionEngine.run permitted machineCode cpu with
  | case1 => exact .error rfl
  | case2 => assumption
  | case3 => exact .ok _
  | case4 => exact .error rfl
  | case5 => exact .error rfl

theorem engine_raises (machineCode : List (BitVec 8)) (guestState : BitVec 64)
    (mapping : ExecutionEngine.Mapping) (host : A64.Cpu) :
    Raises Expected (ExecutionEngine.executeBlock machineCode guestState mapping host) := by
  have hthrow {e : Error} (h : Expected e) : Raises Expected (throw e : Except Error PUnit) :=
    .error h
  have hrun : Raises Expected (ExecutionEngine.run (ExecutionEngine.permitted guestState host.mem)
      machineCode { host with x := Function.update host.x 0 guestState }) :=
    (run_raises _ _ _).mono fun e he => .inr (.inr he)
  refine .ite (fun _ => (hthrow (.inl ⟨_, rfl⟩)).bind fun _ h => by cases h) fun _ => ?_
  refine .ite (fun _ => (hthrow (.inl ⟨_, rfl⟩)).bind fun _ h => by cases h) fun _ => ?_
  refine hrun.bind fun _ _ => .ite (fun _ => ?_) fun _ => .ok _
  exact (hthrow (.inr (.inr rfl))).bind fun _ h => by cases h

theorem executeBlock_raises (horder : ∀ rs, (order rs).Perm rs) :
    Raises Expected (t.executeBlock order pc) :=
  (translateBlock_raises horder).bind fun machineCode _ =>
    (engine_raises machineCode t.guestState (t.mappings 0) t.host).bind fun _ _ => .ok _

theorem dispatch_raises (horder : ∀ rs, (order rs).Perm rs) (maxBlocks : ℕ) (pc : BitVec 64)
    (last : Option (BitVec 64)) (t : BinaryTranslator) :
    Raises Expected (dispatch order maxBlocks pc last t) := by
  induction maxBlocks generalizing pc last t with
  | zero => exact .ok _
  | succ maxBlocks ih =>
    refine .ite (fun _ => .ok _) fun _ => (executeBlock_raises horder).bind fun _ _ => ?_
    exact .ite (fun _ => .ok _) fun _ => ih _ _ _

theorem executeFile_raises (horder : ∀ rs, (order rs).Perm rs) :
    Raises Expected (t.executeFile load order inputPath functionName) := by
  refine ((ELFReader.loadFile_raises load inputPath).mono ?_).bind fun r _ => ?_
  · rintro e ⟨what, rfl⟩
    exact .inl ⟨what, rfl⟩
  · cases hentry : r.getFunctionAddress functionName with
    | none => exact .error (.inl ⟨_, rfl⟩)
    | some entry => exact (dispatch_raises horder _ _ _ _).bind fun _ _ => .ok _

end BinaryTranslator

section

variable {load : String → Option Elfio} {order : List ℕ → List ℕ} {programName inputPath
  functionName : String} {t : BinaryTranslator} {r : ELFReader}

theorem report_raises {result : Except Error (BitVec 32 × BinaryTranslator)}
    (h : Raises BinaryTranslator.Expected result) :
    Raises (fun e => e = .outOfBounds ∨ e = .hostFault) (report functionName result) := by
  cases result with
  | ok result => exact .ok _
  | error e =>
    rcases h e rfl with ⟨what, hwhat⟩ | hout
    · simp only [report, hwhat]
      exact .ok _
    · rcases hout with rfl | rfl
      · exact .error (.inl rfl)
      · exact .error (.inr rfl)

def ELFReader.program (r : ELFReader) : RiscV.Program := ⟨r.textSection.data, r.textSection.virtualAddress⟩

/-- A file with the text of `increment` and a symbol for it. -/
def incrementFile : Elfio where
  getClass := ELFCLASS64
  getMachine := EM_RISCV
  getType := ET_EXEC
  getEntry := 0x10000#64
  sections := [⟨".text", 1, 0x6#64, 0x10000#64, some increment.text, []⟩,
    ⟨".symtab", SHT_SYMTAB, 0#64, 0#64, some [], [none, some ⟨"increment", 0x10000#64⟩]⟩]

def incrementReader : ELFReader := ⟨incrementFile, 0x10000#64, ⟨0x10000#64, increment.text⟩⟩

end

end DinoRisc
