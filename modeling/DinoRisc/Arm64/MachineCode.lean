import DinoRisc.Arm64.Emitted
import DinoRisc.Arm64.LoadStore
import DinoRisc.BinaryTranslator

/-! The bytes of encoded code do what the code does. -/

namespace DinoRisc.Arm64

open Encoder

/-- The sizes, opcodes and conditions for which the encoder emits the instruction that is meant. -/
def Instruction.Exact : Instruction → Prop
  | .threeOperand opcode size _ _ _ => (size = .w ∨ size = .x) ∧ opcode ≠ .eor ∧ opcode ≠ .lsr
  | .twoOperand opcode size _ _ => size = .w ∧ opcode ≠ .sxtw ∨ size = .x
  | .memory .. => True
  | .moveWide _ size _ _ _ => size = .x
  | .branch .. => False
  | .conditional _ size _ condition => size = .x ∧ condition ≠ .al ∧ condition ≠ .nv
  | .conditionalSelect _ size _ _ _ _ => size = .x

theorem Instruction.exact_rename (ρ : VirtualRegister → Register) (inst : Instruction) :
    (inst.rename ρ).Exact ↔ inst.Exact := by
  cases inst <;> rfl

namespace Encoder

variable {inst : Instruction} {code : List Instruction} {bytes rest : List (BitVec 8)}
  {encoded : List (List (BitVec 8))} {m m' : Machine} {target : BitVec 64}

theorem cases_of_emitted (h : inst.Emitted) (hv : inst.hasVirtual = false) (hexact : inst.Exact) :
    inst.IsDataProcessing ∧ inst.Encodable ∨ ∃ opcode size rt rn offset,
      opcode ∈ [.ldr, .str] ∧ Scaled size offset ∧
        inst = .memory opcode size (.register (.x rt)) (.register (.x rn)) offset := by
  have hgeneral {operand : Operand} (hs : operand.IsSlot) (hmem : operand ∈ inst.operands) :
      operand.IsGeneral := Instruction.isGeneral_of_mem hv hmem hs
  cases h with
  | @compute opcode size dest src1 src2 hop hdest hsrc1 hsrc2 =>
    obtain ⟨hsize, heor, hlsr⟩ := hexact
    have hdest := hgeneral hdest (by simp [Instruction.operands])
    have hsrc1 := hgeneral hsrc1 (by simp [Instruction.operands])
    have hsrc2 := hgeneral hsrc2 (by simp [Instruction.operands])
    refine .inl ⟨⟨hsize, hdest, hsrc1, .inl hsrc2⟩, ?_⟩
    cases opcode <;> trivial
  | @convert opcode size dest src hop hdest hsrc =>
    have hdest := hgeneral hdest (by simp [Instruction.operands])
    have hsrc := hgeneral hsrc (by simp [Instruction.operands])
    exact .inl ⟨⟨hexact, hdest, .inl hsrc⟩, trivial⟩
  | @constant opcode size dest value hop hdest hvalue =>
    have hdest := hgeneral hdest (by simp [Instruction.operands])
    refine .inl ⟨⟨hexact, hdest, .inr ⟨value, rfl, ?_⟩⟩, trivial⟩
    simp only [List.mem_cons, List.not_mem_nil, or_false] at hop
    rcases hop with rfl | rfl <;> exact hvalue
  | @compare size src1 src2 hsrc1 hsrc2 =>
    have hsrc1 := hgeneral hsrc1 (by simp [Instruction.operands])
    refine .inl ⟨⟨hexact, hsrc1, ?_⟩, trivial⟩
    rcases hsrc2 with hsrc2 | rfl
    · exact .inl (hgeneral hsrc2 (by simp [Instruction.operands]))
    · exact .inr ⟨0#64, rfl, Nat.two_pow_pos 12⟩
  | @memory opcode size reg baseReg offset hop hreg hbase hoffset haligned =>
    obtain ⟨rt, rfl⟩ := hgeneral hreg (by simp [Instruction.operands])
    obtain ⟨rn, rfl⟩ := hgeneral hbase (by simp [Instruction.operands])
    refine .inr ⟨opcode, size, rt, rn, offset, hop, ⟨by omega, ?_, ?_⟩, rfl⟩
    · cases size <;> simp only [DataSize.bytes] <;> omega
    · exact (Nat.div_le_self _ _).trans_lt (by omega)
  | @chunk opcode size dest imm16 shift hop hdest hshift =>
    have hdest := hgeneral hdest (by simp [Instruction.operands])
    obtain rfl : size = .x := hexact
    exact .inl ⟨⟨.inr rfl, hdest, hshift⟩, trivial⟩
  | set hdest =>
    obtain ⟨rfl, hal, hnv⟩ := hexact
    have hdest := hgeneral hdest (by simp [Instruction.operands])
    exact .inl ⟨⟨.inr rfl, hdest, hal, hnv⟩, trivial⟩
  | select hdest hsrc1 hsrc2 =>
    obtain rfl := hexact
    have hdest := hgeneral hdest (by simp [Instruction.operands])
    have hsrc1 := hgeneral hsrc1 (by simp [Instruction.operands])
    have hsrc2 := hgeneral hsrc2 (by simp [Instruction.operands])
    exact .inl ⟨⟨.inr rfl, hdest, hsrc1, hsrc2⟩, trivial⟩

/-- The bytes mean the instruction, and load and store where it does. -/
structure Renders (bytes : List (BitVec 8)) (inst : Instruction) : Prop where
  means : Means bytes inst
  access : ∀ word i, fetch bytes = some word → A64.decode word = some i →
    ∀ m : Machine, i.access m.cpu = inst.transfer m

theorem renders_of_word {i : A64.Instr} (hmeans : Means bytes inst)
    (hfetch : fetch bytes = some i.encode)
    (haccess : ∀ m : Machine, i.access m.cpu = inst.transfer m) : Renders bytes inst where
  means := hmeans
  access word j hword hdecode := by
    obtain rfl : i.encode = word := Option.some.inj (hfetch.symm.trans hword)
    rw [A64.decode_encode, Option.ite_none_right_eq_some] at hdecode
    obtain ⟨-, hdecode⟩ := hdecode
    cases hdecode
    exact haccess

theorem emit_access (hdp : inst.IsDataProcessing) {i : A64.Instr} (h : emit inst = some i)
    (cpu : A64.Cpu) : i.access cpu = none := by
  cases inst with
  | threeOperand opcode size dest src1 src2 =>
    obtain ⟨-, ⟨rd, rfl⟩, ⟨rn, rfl⟩, ⟨rm, rfl⟩ | ⟨value, rfl, -⟩⟩ := hdp <;>
      cases opcode <;> cases h <;> rfl
  | twoOperand opcode size dest src =>
    obtain ⟨-, ⟨rd, rfl⟩, ⟨rm, rfl⟩ | ⟨value, rfl, -⟩⟩ := hdp <;> cases opcode <;> cases h <;> rfl
  | moveWide opcode size dest imm16 shift =>
    obtain ⟨-, ⟨rd, rfl⟩, -⟩ := hdp
    cases opcode <;> cases h <;> rfl
  | conditional opcode size dest condition =>
    obtain ⟨-, ⟨rd, rfl⟩, -⟩ := hdp
    cases opcode <;> cases h
    rfl
  | conditionalSelect opcode size dest src1 src2 condition =>
    obtain ⟨-, ⟨rd, rfl⟩, ⟨rn, rfl⟩, ⟨rm, rfl⟩⟩ := hdp
    cases opcode <;> cases h
    rfl
  | memory | branch => exact hdp.elim

theorem renders_of_encodable (hdp : inst.IsDataProcessing) (henc : inst.Encodable)
    (hok : encodeInstruction inst = .ok bytes) : Renders bytes inst := by
  obtain ⟨i, hi, hfetch⟩ := encodeInstruction_emit inst hdp hok
  refine renders_of_word (means_of_encodable hdp henc hok) hfetch fun m => ?_
  rw [emit_access hdp hi]
  cases inst with
  | memory => exact hdp.elim
  | _ => rfl

theorem renders_of_emitted (h : inst.Emitted) (hv : inst.hasVirtual = false) (hexact : inst.Exact)
    (hok : encodeInstruction inst = .ok bytes) : Renders bytes inst := by
  rcases cases_of_emitted h hv hexact with
    ⟨hdp, henc⟩ | ⟨opcode, size, rt, rn, offset, hop, hscaled, rfl⟩
  · exact renders_of_encodable hdp henc hok
  · obtain ⟨word, hword, hfetch⟩ := encodeInstruction_fetch hok
    cases hword.symm.trans (encodeMemoryInst_scaled hop hscaled)
    exact renders_of_word (means_loadStore hop hscaled hok) hfetch (access_loadStore hop hscaled)

/-! ### Machine code -/

theorem fetch_eq_some {word : BitVec 32} (h : fetch bytes = some word) :
    ∃ b0 b1 b2 b3, bytes = [b0, b1, b2, b3] ∧ word = b3 ++ b2 ++ b1 ++ b0 := by
  unfold fetch at h
  split at h
  · cases h
    exact ⟨_, _, _, _, rfl, rfl⟩
  · cases h

theorem run_renders (h : Renders bytes inst) (permitted : A64.Access → Bool)
    (rest : List (BitVec 8)) (m : Machine) :
    ∃ outcome, exec inst m = some outcome ∧ ExecutionEngine.run permitted (bytes ++ rest) m.cpu =
      if (inst.transfer m).all permitted then
        match outcome with
        | .next m' => ExecutionEngine.run permitted rest m'.cpu
        | .jump m' target => .ok (m'.cpu, target)
      else .error .hostFault := by
  obtain ⟨word, i, hfetch, hdecode, hexec⟩ := h.means
  have haccess := h.access word i hfetch hdecode m
  obtain ⟨b0, b1, b2, b3, rfl, rfl⟩ := fetch_eq_some hfetch
  obtain ⟨outcome, houtcome, hcpu⟩ := Option.map_eq_some_iff.mp (hexec m)
  refine ⟨outcome, houtcome, ?_⟩
  simp only [List.cons_append, List.nil_append, ExecutionEngine.run, hdecode, haccess, ← hcpu]
  cases outcome <;> rfl

theorem mapM_cons_ok (h : (inst :: code).mapM encodeInstruction = .ok encoded) :
    ∃ bytes others, encodeInstruction inst = .ok bytes ∧
      code.mapM encodeInstruction = .ok others ∧ encoded = bytes :: others := by
  rw [List.mapM_cons] at h
  cases hbytes : encodeInstruction inst with
  | error e =>
    rw [hbytes] at h
    cases h
  | ok bytes =>
    rw [hbytes] at h
    cases hothers : code.mapM encodeInstruction with
    | error e =>
      rw [hothers] at h
      cases h
    | ok others =>
      rw [hothers] at h
      cases h
      exact ⟨bytes, others, rfl, rfl, rfl⟩

theorem encode_of_mapM (h : code.mapM encodeInstruction = .ok encoded) (hmem : inst ∈ code) :
    ∃ bytes, encodeInstruction inst = .ok bytes := by
  induction code generalizing encoded with
  | nil => cases hmem
  | cons first code ih =>
    obtain ⟨bytes, others, hbytes, hothers, -⟩ := mapM_cons_ok h
    rcases List.mem_cons.mp hmem with rfl | hmem
    · exact ⟨bytes, hbytes⟩
    · exact ih hothers hmem

/-- The run lemma: the bytes reach what the instructions reach, if they may access what these do. -/
theorem run_encoded {permitted : A64.Access → Bool}
    (hencode : code.mapM encodeInstruction = .ok encoded)
    (hrenders : ∀ inst ∈ code, ∀ bytes, encodeInstruction inst = .ok bytes → Renders bytes inst)
    (hpermitted : ∀ access ∈ transfers code m, permitted access = true)
    (hrun : Arm64.run code m = some (m', target)) :
    ExecutionEngine.run permitted encoded.flatten m.cpu = .ok (m'.cpu, target) := by
  induction code generalizing m encoded with
  | nil => cases hrun
  | cons inst code ih =>
    obtain ⟨bytes, others, hbytes, hothers, rfl⟩ := mapM_cons_ok hencode
    obtain ⟨hinst, hcode⟩ := List.forall_mem_cons.mp hrenders
    obtain ⟨outcome, hexec, hengine⟩ := run_renders (hinst bytes hbytes) permitted others.flatten m
    rw [transfers, hexec, List.forall_mem_append] at hpermitted
    obtain ⟨hfirst, hrest⟩ := hpermitted
    have hall : (inst.transfer m).all permitted = true := by
      simpa [Option.all_eq_true] using hfirst
    rw [Arm64.run, hexec] at hrun
    rw [List.flatten_cons, hengine, if_pos hall]
    cases outcome with
    | next m₁ => exact ih hothers hcode hrest hrun
    | jump m₁ address =>
      cases hrun
      rfl

def words : List (BitVec 8) → List (BitVec 32)
  | b0 :: b1 :: b2 :: b3 :: rest => (b3 ++ b2 ++ b1 ++ b0) :: words rest
  | _ => []

theorem encodeInstruction_length (h : encodeInstruction inst = .ok bytes) : bytes.length = 4 := by
  rw [encodeInstruction] at h
  cases hword : encodeWord inst with
  | error e =>
    rw [hword] at h
    cases h
  | ok word =>
    rw [hword] at h
    cases h
    rfl

theorem mem_words (hencode : code.mapM encodeInstruction = .ok encoded) (word : BitVec 32) : word ∈ words encoded.flatten ↔
      ∃ inst ∈ code, ∃ bytes, encodeInstruction inst = .ok bytes ∧ fetch bytes = some word := by
  induction code generalizing encoded with
  | nil =>
    cases hencode
    simp [words]
  | cons inst code ih =>
    obtain ⟨bytes, others, hbytes, hothers, rfl⟩ := mapM_cons_ok hencode
    obtain ⟨b0, b1, b2, b3, rfl⟩ := List.length_eq_four.mp (encodeInstruction_length hbytes)
    rw [List.flatten_cons]
    simp only [List.cons_append, List.nil_append, words, List.mem_cons, ih hothers,
      exists_eq_or_imp, hbytes, Except.ok.injEq, exists_eq_left', fetch, Option.some.injEq]
    rw [eq_comm]

end Encoder

end DinoRisc.Arm64
