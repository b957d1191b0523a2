import DinoRisc.Lowering.WriteOrder
import DinoRisc.TranslationErrors

/-!
The lifter writes a block's registers in the order in which it iterates an unordered set. What the
program does is the same for each of these orders.
-/

namespace DinoRisc

open Arm64 Arm64.Encoder ByteMemory IR InstructionSelector LivenessAnalysis RegisterAllocator

namespace ExecutionEngine

variable {inst : Arm64.Instruction} {code front : Code} {encoded : List (List (BitVec 8))}
  {rest rest' : List (BitVec 8)} {cpu : A64.Cpu} {n : Fin 31} {r : ℕ}
  {permitted : A64.Access → Bool}

def bytesOf (inst : Arm64.Instruction) : List (BitVec 8) :=
  match encodeInstruction inst with
  | .ok bytes => bytes
  | .error _ => []

theorem encoded_eq (h : code.mapM encodeInstruction = .ok encoded) : encoded = code.map bytesOf := by
  induction code generalizing encoded with
  | nil =>
    cases h
    rfl
  | cons inst code ih =>
    obtain ⟨bytes, others, hbytes, hothers, rfl⟩ := mapM_cons_ok h
    rw [List.map_cons, bytesOf, hbytes, ih hothers]

/-- Code in front of code with the same effect. -/
theorem run_front (hfront : ∀ inst ∈ front, (bytesOf inst).length = 4)
    (h : ∀ cpu, run permitted rest cpu = run permitted rest' cpu) (cpu : A64.Cpu) :
    run permitted ((front.map bytesOf).flatten ++ rest) cpu =
      run permitted ((front.map bytesOf).flatten ++ rest') cpu := by
  induction front generalizing cpu with
  | nil => exact h cpu
  | cons inst front ih =>
    obtain ⟨hinst, hfront⟩ := List.forall_mem_cons.mp hfront
    obtain ⟨b0, b1, b2, b3, hbytes⟩ := List.length_eq_four.mp hinst
    simp only [List.map_cons, List.flatten_cons, hbytes, List.cons_append, List.nil_append,
      run]
    cases A64.decode (b3 ++ b2 ++ b1 ++ b0) with
    | none => rfl
    | some i =>
      dsimp only
      cases A64.exec i cpu with
      | next cpu' => simp only [ih hfront]
      | jump cpu' target => rfl

/-! ### Register writes -/

/-- The store of a host register to a guest register. -/
def storeGeneral (p : Fin 31 × ℕ) : Arm64.Instruction :=
  .memory .str .x (.register (.x p.1)) X0 (registerOffset p.2)

/-- What this store does. -/
def writeBack (cpu : A64.Cpu) (p : Fin 31 × ℕ) : A64.Cpu :=
  { cpu with
    mem := store cpu.mem (cpu.x 0 + (registerOffset p.2).signExtend 64) 8 (cpu.x p.1) }

theorem signExtend_registerOffset (hr : r < 32) :
    (registerOffset r).signExtend 64 = BitVec.ofNat 64 (r * 8) := by
  have hall : ∀ k : Fin 32, (registerOffset k).signExtend 64 = BitVec.ofNat 64 (k * 8) := by decide
  exact hall ⟨r, hr⟩

theorem registers_disjoint {p q : ℕ} (hp : p < 32) (hq : q < 32) (hne : p ≠ q)
    (base x : BitVec 64) : ¬ (InRange (base + (registerOffset p).signExtend 64) 8 x ∧
      InRange (base + (registerOffset q).signExtend 64) 8 x) := by
  rw [signExtend_registerOffset hp, signExtend_registerOffset hq]
  rintro ⟨hinp, hinq⟩
  rw [InRange, sub_add_eq_sub_sub, BitVec.toNat_sub, BitVec.toNat_ofNat] at hinp hinq
  omega

theorem writeBack_comm {p q : Fin 31 × ℕ} (hp : p.2 < 32) (hq : q.2 < 32) (hne : p.2 ≠ q.2)
    (cpu : A64.Cpu) : writeBack (writeBack cpu p) q = writeBack (writeBack cpu q) p := by
  have hcomm := store_comm (m := cpu.mem) (registers_disjoint hp hq hne (cpu.x 0)) (cpu.x p.1)
    (cpu.x q.1)
  simp only [writeBack, hcomm]

/-- Writes to distinct registers have the same effect in each order. -/
theorem foldl_writeBack {ps qs : List (Fin 31 × ℕ)} (hperm : ps.Perm qs)
    (hbound : ∀ p ∈ ps, p.2 < 32) (hdistinct : (ps.map Prod.snd).Nodup) (cpu : A64.Cpu) :
    ps.foldl writeBack cpu = qs.foldl writeBack cpu := by
  apply hperm.foldl_eq'
  intro p hp q hq cpu
  by_cases heq : p.2 = q.2
  · rw [List.inj_on_of_nodup_map hdistinct hp hq heq]
  · exact writeBack_comm (hbound p hp) (hbound q hq) heq cpu

/-- The access of the write to a guest register, from the address of the guest state. -/
def writeAccess (base : BitVec 64) (r : ℕ) : A64.Access where
  isStore := true
  address := base + (registerOffset r).signExtend 64
  size := 8

theorem run_store (hr : r < 32) (rest : List (BitVec 8)) (cpu : A64.Cpu) :
    run permitted (bytesOf (storeGeneral (n, r)) ++ rest) cpu =
      if permitted (writeAccess (cpu.x 0) r) then run permitted rest (writeBack cpu (n, r))
      else .error .hostFault := by
  obtain ⟨hoffset, haligned⟩ := registerOffset_toNat hr
  have hemitted : (storeGeneral (n, r)).Emitted :=
    .memory (by simp) (.general n) (.general 0) hoffset haligned
  obtain ⟨bytes, hbytes, -⟩ := encodeInstruction_ok hemitted rfl
  obtain ⟨outcome, hexec, hrun⟩ :=
    run_renders (renders_of_emitted hemitted rfl trivial hbytes) permitted rest (Machine.ofCpu cpu)
  cases hexec
  rw [bytesOf, hbytes]
  exact hrun

theorem run_stores {ps : List (Fin 31 × ℕ)} (hbound : ∀ p ∈ ps, p.2 < 32)
    (rest : List (BitVec 8)) (cpu : A64.Cpu) :
    run permitted (((ps.map storeGeneral).map bytesOf).flatten ++ rest) cpu =
      if ps.all fun p => permitted (writeAccess (cpu.x 0) p.2) then
        run permitted rest (ps.foldl writeBack cpu)
      else .error .hostFault := by
  induction ps generalizing cpu with
  | nil => rfl
  | cons p ps ih =>
    obtain ⟨hp, hps⟩ := List.forall_mem_cons.mp hbound
    rw [List.map_cons, List.map_cons, List.flatten_cons, List.append_assoc, run_store hp, ih hps,
      List.foldl_cons, List.all_cons]
    cases permitted (writeAccess (cpu.x 0) p.2) <;> rfl

/-- Allocated and encoded, the codes have the same effect. -/
theorem run_rearranged {code₁ code₂ : Code} {encoded₁ encoded₂ : List (List (BitVec 8))}
    {ρ : VirtualRegister → Register} {general : VirtualRegister → Fin 31}
    (h : Rearranged code₁ code₂) (hρ : ∀ v, ρ v = .x (general v))
    (hencode₁ : (code₁.map (Instruction.rename ρ)).mapM encodeInstruction = .ok encoded₁)
    (hencode₂ : (code₂.map (Instruction.rename ρ)).mapM encodeInstruction = .ok encoded₂)
    (cpu : A64.Cpu) : run permitted encoded₁.flatten cpu = run permitted encoded₂.flatten cpu := by
  cases h with
  | @intro before after stores stores' hperm hbound hdistinct =>
    let f : VirtualRegister × ℕ → Fin 31 × ℕ := fun p => (general p.1, p.2)
    have hstores (ps : List (VirtualRegister × ℕ)) :
        (ps.map storeOf).map (Instruction.rename ρ) = (ps.map f).map storeGeneral := by
      rw [List.map_map, List.map_map]
      apply List.map_congr_left
      intro p _
      simp [storeOf, storeGeneral, Instruction.rename, Operand.rename, X0, hρ, f]
    have hbefore : ∀ inst ∈ before.map (Instruction.rename ρ), (bytesOf inst).length = 4 := by
      intro inst hinst
      have hmem : inst ∈ (before ++ stores.map storeOf ++ after).map (Instruction.rename ρ) := by
        rw [List.map_append, List.map_append]
        exact List.mem_append_left _ (List.mem_append_left _ hinst)
      obtain ⟨bytes, hbytes⟩ := encode_of_mapM hencode₁ hmem
      rw [bytesOf, hbytes]
      exact encodeInstruction_length hbytes
    have hboundMap : ∀ p ∈ stores.map f, p.2 < 32 := by
      intro p hp
      obtain ⟨q, hq, rfl⟩ := List.mem_map.mp hp
      exact hbound q hq
    have hdistinctMap : ((stores.map f).map Prod.snd).Nodup := by
      rwa [List.map_map]
    have hboundMap' : ∀ p ∈ stores'.map f, p.2 < 32 := fun p hp =>
      hboundMap p ((hperm.map f).mem_iff.mpr hp)
    rw [encoded_eq hencode₁, encoded_eq hencode₂]
    simp only [List.map_append, hstores, List.flatten_append, List.append_assoc]
    apply run_front hbefore
    intro cpu
    rw [run_stores hboundMap, run_stores hboundMap', (hperm.map f).all_eq,
      foldl_writeBack (hperm.map f) hboundMap hdistinctMap]

end ExecutionEngine

/-! ### Blocks -/

namespace BinaryTranslator

variable {order order₁ order₂ : List ℕ → List ℕ} {t : BinaryTranslator} {pc : BitVec 64}
  {instructions : List RiscV.Instruction}

theorem Decodes.scan (horder : ∀ rs, (order rs).Perm rs) (hpc : t.isValidPC pc = true)
    (h : t.Decodes pc instructions) {block : BasicBlock} {l : Lifter} {code : Code}
    {σ : InstructionSelector} (hlift : Lifter.init.liftBasicBlock order instructions = .ok (block, l))
    (hselect : InstructionSelector.init.selectInstructions block = .ok (code, σ)) :
    (∃ s encoded, allocateIntervals (computeLiveIntervals code) init = some s ∧
      (∀ v, ∃ n, s.registerOf v = .x n) ∧
      (code.map (Instruction.rename s.registerOf)).mapM encodeInstruction = .ok encoded ∧
      encoded.flatten ≠ [] ∧ t.translateBlock order pc = .ok encoded.flatten) ∨
    (allocateIntervals (computeLiveIntervals code) init = none ∧
      t.translateBlock order pc = .error unallocated) := by
  have hblock := h.wellTyped horder hlift
  rcases allocateIntervals_ordered (computeLiveIntervals_ordered code) with
    ⟨s, hscan, halloc, -⟩ | ⟨hscan, -⟩
  · left
    obtain ⟨body, ending, rfl, hbody, -, hending⟩ := selectInstructions_shape hblock hselect
    obtain ⟨encoded, hencode, hne⟩ := mapM_encodeInstruction_ok hbody hending halloc
    have hregisters := allocateRegisters_eq hscan (allocated hbody hending halloc)
    have htranslate : translateToARM64 block =
        .ok ((body ++ ending ++ selectRet).map (Instruction.rename s.registerOf)) := by
      simp only [translateToARM64, hselect, bind, Except.bind, hregisters]
      rfl
    refine ⟨s, encoded, hscan, halloc.registerOf_general, hencode, hne, ?_⟩
    rw [translateBlock_eq hpc h hlift htranslate, hencode]
    simp [Except.bind, hne]
  · right
    have hregisters : allocateRegisters code (computeLiveIntervals code) = .ok (false, code) := by
      rw [allocateRegisters, hscan]
    have htranslate := translateToARM64_unallocated hselect hregisters
    obtain ⟨_, _, _, _, message, -, -, -, -, -, -, hencode⟩ := encode_unallocated hscan
    refine ⟨hscan, ?_⟩
    rw [translateBlock_eq hpc h hlift htranslate, hencode,
      mapM_encodeInstruction_unallocated hblock hselect hencode]
    rfl

/-- Two orders lead to the same error, or to code with the same effect. -/
def Same (x y : Except Error (List (BitVec 8))) : Prop :=
  (∃ e, x = .error e ∧ y = .error e) ∨
    ∃ code code', x = .ok code ∧ y = .ok code' ∧
      code ≠ [] ∧ code' ≠ [] ∧ ∀ permitted cpu,
        ExecutionEngine.run permitted code cpu = ExecutionEngine.run permitted code' cpu

theorem translateBlock_same (horder₁ : ∀ rs, (order₁ rs).Perm rs)
    (horder₂ : ∀ rs, (order₂ rs).Perm rs) (t : BinaryTranslator) (pc : BitVec 64) :
    Same (t.translateBlock order₁ pc) (t.translateBlock order₂ pc) := by
  have hfails {e : Error} (h₁ : Fails order₁ t pc e) (h₂ : Fails order₂ t pc e) :
      Same (t.translateBlock order₁ pc) (t.translateBlock order₂ pc) :=
    .inl ⟨e, h₁.error horder₁, h₂.error horder₂⟩
  cases hpc : t.isValidPC pc with
  | false => exact hfails (.bounds hpc) (.bounds hpc)
  | true =>
    cases hdecodes : decodeBlock t.textSectionData
        (offsets (t.offsetOf pc) t.textSectionData.length) pc with
    | error e =>
      exact .inl ⟨e, translateBlock_decode_error hpc hdecodes,
        translateBlock_decode_error hpc hdecodes⟩
    | ok instructions =>
      replace hdecodes : t.Decodes pc instructions := hdecodes
      cases hfind : instructions.find? fun i => !i.opcode.isSupported with
      | some inst =>
        obtain ⟨hinst, before, after, rfl, hbefore⟩ := List.find?_eq_some_iff_append.mp hfind
        have hbefore : ∀ i ∈ before, i.opcode.isSupported = true := by simpa using hbefore
        have hinst : inst.opcode.isSupported = false := by simpa using hinst
        exact hfails (.lift hpc hdecodes hbefore hinst) (.lift hpc hdecodes hbefore hinst)
      | none =>
        have hall : ∀ i ∈ instructions, i.opcode.isSupported = true := by
          simpa using List.find?_eq_none.mp hfind
        obtain ⟨block₁, l₁, block₂, l₂, hlift₁, hlift₂, hreordered⟩ :=
          Lifter.liftBasicBlock_reordered horder₁ horder₂ Lifter.init (hdecodes.supported hall)
            hdecodes.transfer
        obtain ⟨code₁, σ₁, hselect₁⟩ := selectInstructions_ok (hdecodes.wellTyped horder₁ hlift₁)
        obtain ⟨code₂, σ₂, hselect₂⟩ := selectInstructions_ok (hdecodes.wellTyped horder₂ hlift₂)
        have hcode := selectInstructions_rearranged hreordered hselect₁ hselect₂
        have hallocation := hcode.allocation_eq
        rcases hdecodes.scan horder₁ hpc hlift₁ hselect₁ with
          ⟨s₁, encoded₁, hscan₁, hgeneral, hencode₁, hne₁, hok₁⟩ | ⟨hscan₁, herror₁⟩
        · rcases hdecodes.scan horder₂ hpc hlift₂ hselect₂ with
            ⟨s₂, encoded₂, hscan₂, -, hencode₂, hne₂, hok₂⟩ | ⟨hscan₂, -⟩
          · rw [hscan₁, hscan₂] at hallocation
            have hmaps : s₁.allocation = s₂.allocation := Option.some.inj hallocation
            have hregisters : s₂.registerOf = s₁.registerOf := by
              funext v
              rw [registerOf, registerOf, hmaps]
            choose general hgeneral using hgeneral
            rw [hregisters] at hencode₂
            exact .inr ⟨_, _, hok₁, hok₂, hne₁, hne₂, fun permitted =>
              ExecutionEngine.run_rearranged hcode hgeneral hencode₁ hencode₂⟩
          · rw [hscan₁, hscan₂] at hallocation
            cases hallocation
        · rcases hdecodes.scan horder₂ hpc hlift₂ hselect₂ with
            ⟨s₂, encoded₂, hscan₂, -⟩ | ⟨-, herror₂⟩
          · rw [hscan₁, hscan₂] at hallocation
            cases hallocation
          · exact .inl ⟨_, herror₁, herror₂⟩

/-! ### Runs -/

theorem executeBlock_order (horder₁ : ∀ rs, (order₁ rs).Perm rs)
    (horder₂ : ∀ rs, (order₂ rs).Perm rs) (t : BinaryTranslator) (pc : BitVec 64) :
    t.executeBlock order₁ pc = t.executeBlock order₂ pc := by
  rw [executeBlock, executeBlock]
  rcases translateBlock_same horder₁ horder₂ t pc with
    ⟨e, h₁, h₂⟩ | ⟨code, code', h₁, h₂, hne, hne', hrun⟩
  · rw [h₁, h₂]
  · rw [h₁, h₂]
    have hempty : code.isEmpty = code'.isEmpty := by
      rw [List.isEmpty_eq_false_iff.mpr hne, List.isEmpty_eq_false_iff.mpr hne']
    simp only [bind, Except.bind, ExecutionEngine.executeBlock, hempty, hrun]

theorem dispatch_order (horder₁ : ∀ rs, (order₁ rs).Perm rs)
    (horder₂ : ∀ rs, (order₂ rs).Perm rs) (maxBlocks : ℕ) (pc : BitVec 64)
    (last : Option (BitVec 64)) (t : BinaryTranslator) :
    dispatch order₁ maxBlocks pc last t = dispatch order₂ maxBlocks pc last t := by
  induction maxBlocks generalizing pc last t with
  | zero => rfl
  | succ maxBlocks ih => simp only [dispatch, executeBlock_order horder₁ horder₂, ih]

/-- A function that writes two registers and returns. -/
def twoWrites : List (BitVec 8) :=
  [RiscV.Encoding.Instr.i .addi 10 0 1#12, .i .addi 11 0 2#12, .i .jalr 0 1 0#12].flatMap fun i =>
    RiscV.Encoding.littleEndian i.encode

end BinaryTranslator

end DinoRisc
