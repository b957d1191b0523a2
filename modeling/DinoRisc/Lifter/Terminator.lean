import DinoRisc.Lifter.StraightLine

/-!
The control transfer at the end of a block. Its reads see the state that the instructions before
it leave, and the block's register writes are already done.
-/

namespace DinoRisc.Lifter

open IR ByteMemory RiscV

variable {valid : Valid} {g₀ g g' : Guest} {l l' : Lifter} {s s' : EvalState}
  {inst : RiscV.Instruction} {pc : BitVec 64} {order : List ℕ → List ℕ}

def IsReturn (inst : RiscV.Instruction) : Prop :=
  inst.opcode = .jalr ∧ inst.operands = [.register 0, .register 1, .immediate 0#64]

instance (inst : RiscV.Instruction) : Decidable (IsReturn inst) :=
  inferInstanceAs (Decidable (_ ∧ _))

/-- The next program counter of RV64I after `inst`, where a branch that is not taken goes to
`fallThrough`. -/
def isaNextPC (inst : RiscV.Instruction) (fallThrough : BitVec 64) (g : Guest) : BitVec 64 :=
  match inst.operands with
  | [.register r, .register s, .immediate imm] =>
    match Isa.immediateForm inst.opcode with
    | some (.branch taken) => if taken (g.reg r) (g.reg s) then inst.address + imm else fallThrough
    | some .jalr => (g.reg s + imm) &&& ~~~1#64
    | _ => fallThrough
  | [.register _, .immediate imm] =>
    if inst.opcode = .jal then inst.address + imm else fallThrough
  | _ => fallThrough

theorem isaNextPC_eq {valid : Valid} (h : Isa.step valid inst g = some (g', pc)) :
    isaNextPC inst (inst.address + 4#64) g = pc := by
  obtain ⟨opcode, operands, raw, address⟩ := inst
  simp only [Isa.step] at h
  split at h
  · simp only [Option.map_eq_some_iff, Prod.mk.injEq] at h
    obtain ⟨f, -, -, rfl⟩ := h
    rfl
  · simp only [Isa.stepImmediate] at h
    simp only [isaNextPC]
    split at h
    · simp only [Option.map_eq_some_iff, Prod.mk.injEq] at h
      obtain ⟨f, -, -, rfl⟩ := h
      simp [*]
    · split at h <;> cases h
      simp [*]
    · split at h <;> cases h
      simp [*]
    · cases h
      simp [*]
    · cases h
      simp [*]
    · cases h
  · split at h <;> cases h <;> rfl
  · cases h

/-- The next program counter that the lifter arranges: a return stops the dispatcher. -/
def nextPC (inst : RiscV.Instruction) (fallThrough : BitVec 64) (g : Guest) : BitVec 64 :=
  if IsReturn inst then 0#64 else isaNextPC inst fallThrough g

/-- A finished block leaves the guest state `g` and hands `pc` to the dispatcher. -/
def Ends (valid : Valid) (g₀ : Guest) (instructions : List IR.Instruction) (terminator : Terminator)
    (g : Guest) (pc : BitVec 64) : Prop :=
  ∃ s, Runs valid ⟨fun _ => none, g₀⟩ instructions s ∧ s.guest = g ∧
    terminator.Typed s.env.types ∧ terminator.nextPC s.env = some pc

def Decides (op : RiscV.Opcode) (compareOp : BinaryOpcode) : Prop :=
  compareOp.isComparison = true ∧ ∃ taken, Isa.immediateForm op = some (.branch taken) ∧
    ∀ a b, comparison compareOp (.ofBits .i64 a) (.ofBits .i64 b) = some (taken a b)

theorem decides_of_mem (p : RiscV.Opcode × BinaryOpcode) (h : p ∈ [(.beq, .eq), (.bne, .ne),
    (.blt, .lt), (.bge, .ge), (.bltu, .ltU), (.bgeu, .geU)]) : Decides p.1 p.2 := by
  simp only [List.mem_cons, List.not_mem_nil, or_false] at h
  rcases h with rfl | rfl | rfl | rfl | rfl | rfl <;>
    exact ⟨by decide, _, rfl, fun a b => by simp [comparison]⟩

theorem createConditionalBranch_ends {compareOp : BinaryOpcode} (fallThrough : BitVec 64)
    (hd : Decides inst.opcode compareOp) (hs : Shaped .b inst.operands)
    (h : Settled valid g₀ l g) :
    ∃ terminator l', l.createConditionalBranch compareOp inst fallThrough = .ok (terminator, l') ∧
      Ends valid g₀ l'.currentInstructions terminator g (isaNextPC inst fallThrough g) := by
  generalize hops : inst.operands = operands at hs
  obtain ⟨hk, taken, hform, hc⟩ := hd
  cases hs with
  | @b rs1 rs2 hrs1 hrs2 halfOffset =>
    obtain ⟨s, t, hg⟩ := h
    obtain ⟨s₁, t₁, e₁, v₁⟩ := t.getRegisterValue hrs1
    obtain ⟨s₂, t₂, e₂, v₂⟩ := t₁.getRegisterValue hrs2
    have v₁' := e₂.env _ _ v₁
    obtain ⟨s₃, t₃, e₃, v₃⟩ := t₂.binaryOp _ (.comparison hk (.inl rfl) (typed v₁') (typed v₂)) v₁' v₂
      (v := ofCondition .i1 (taken (g.reg rs1) (g.reg rs2))) (by simp [evalBinary, hc])
    refine ⟨.condBranch _ (inst.address + (halfOffset ++ 0#1).signExtend 64) fallThrough, _, ?_,
      s₃, t₃.runs, ?_, .condBranch _ _ (typed v₃), ?_⟩
    · simp [Lifter.createConditionalBranch, RiscV.Instruction.getRegister,
        RiscV.Instruction.getImmediate, hops]
      rfl
    · rw [e₃.guest, e₂.guest, e₁.guest, hg]
    · simp only [Terminator.nextPC, v₃, Option.map_some, isaNextPC, hops, hform]
      cases taken (g.reg rs1) (g.reg rs2) <;> rfl

theorem liftJal_ends (fallThrough : BitVec 64) (hop : inst.opcode = .jal)
    (hs : Shaped .j inst.operands) (h : Settled valid g₀ l g) :
    ∃ terminator l', l.liftTerminator inst fallThrough = .ok (terminator, l') ∧
      Ends valid g₀ l'.currentInstructions terminator g (isaNextPC inst fallThrough g) := by
  generalize hops : inst.operands = operands at hs
  cases hs with
  | @j rd hrd halfOffset =>
    obtain ⟨s, t, hg⟩ := h
    obtain ⟨s₁, t₁, e₁, v₁⟩ := t.const64 (inst.address + 4#64)
    have t₂ := t₁.setRegisterValue rd v₁
    refine ⟨.branch (inst.address + (halfOffset ++ 0#1).signExtend 64), _, ?_, s₁, t₂.runs,
      by rw [e₁.guest, hg], .branch _, ?_⟩
    · simp [Lifter.liftTerminator, hop, RiscV.Instruction.getRegister,
        RiscV.Instruction.getImmediate, hops]
      rfl
    · simp [Terminator.nextPC, isaNextPC, hops, hop]

theorem liftJalr_ends (fallThrough : BitVec 64) (hop : inst.opcode = .jalr)
    (hs : Shaped .i inst.operands) (h : Settled valid g₀ l g) :
    ∃ terminator l', l.liftTerminator inst fallThrough = .ok (terminator, l') ∧
      Ends valid g₀ l'.currentInstructions terminator g (nextPC inst fallThrough g) := by
  generalize hops : inst.operands = operands at hs
  cases hs with
  | @i rd rs1 hrd hrs1 imm =>
    obtain ⟨s, t, hg⟩ := h
    generalize himm : imm.signExtend 64 = imm' at hops
    by_cases hret : rd = REG_ZERO ∧ rs1 = REG_RA ∧ imm' = 0#64
    · obtain ⟨rfl, rfl, rfl⟩ := hret
      refine ⟨.ret none, l, ?_, s, t.runs, hg, .ret, ?_⟩
      · simp [Lifter.liftTerminator, hop, RiscV.Instruction.getRegister,
          RiscV.Instruction.getImmediate, hops, REG_ZERO, REG_RA]
        rfl
      · simp [Terminator.nextPC, nextPC, IsReturn, hop, hops, REG_ZERO, REG_RA]
    · obtain ⟨s₁, t₁, e₁, v₁⟩ := t.getRegisterValue hrs1
      obtain ⟨s₂, t₂, e₂, v₂⟩ := t₁.addImmediate v₁ imm'
      obtain ⟨s₃, t₃, e₃, v₃⟩ := t₂.const64 JALR_ALIGN_MASK
      have v₂' := e₃.env _ _ v₂
      obtain ⟨s₄, t₄, e₄, v₄⟩ := t₃.binaryOp .and
        (v := .ofBits .i64 ((g.reg rs1 + imm') &&& ~~~1#64))
        (.arithmetic rfl (.inr rfl) (typed v₂') (typed v₃)) v₂' v₃
        (by simp [evalBinary, comparison, arithmetic, JALR_ALIGN_MASK])
      obtain ⟨s₅, t₅, e₅, v₅⟩ := t₄.const64 (inst.address + 4#64)
      have hnot : ¬ IsReturn inst := by
        simpa [IsReturn, hop, hops, REG_ZERO, REG_RA] using hret
      have hpc : nextPC inst fallThrough g = (g.reg rs1 + imm') &&& ~~~1#64 := by
        simp [nextPC, hnot, isaNextPC, hops, hop, Isa.immediateForm]
      have hg₄ : s₄.guest = g := by rw [e₄.guest, e₃.guest, e₂.guest, e₁.guest, hg]
      rw [hpc]
      by_cases hrd0 : rd = REG_ZERO
      · refine ⟨_, _, ?_, s₄, t₄.runs, hg₄, .retValue (typed v₄), ?_⟩
        · simp only [Lifter.liftTerminator, hop, RiscV.Instruction.getRegister, List.getElem?_cons_zero,
            RiscV.Instruction.getImmediate, List.getElem?_cons_succ, hops, bind, Except.bind]
          rw [if_neg hret]
          rw [if_neg (not_not.mpr hrd0)]
          rfl
        · simp [Terminator.nextPC, v₄]
      · have t₆ := t₅.setRegisterValue rd v₅
        refine ⟨_, _, ?_, s₅, t₆.runs, by rw [e₅.guest, hg₄], .retValue (typed (e₅.env _ _ v₄)), ?_⟩
        · simp only [Lifter.liftTerminator, hop, RiscV.Instruction.getRegister, List.getElem?_cons_zero,
            RiscV.Instruction.getImmediate, List.getElem?_cons_succ, hops, bind, Except.bind]
          rw [if_neg hret]
          rw [if_pos hrd0]
          rfl
        · simp [Terminator.nextPC, e₅.env _ _ v₄]

theorem nextPC_of_ne {inst : RiscV.Instruction} (h : inst.opcode ≠ .jalr)
    (fallThrough : BitVec 64) (g : Guest) :
    nextPC inst fallThrough g = isaNextPC inst fallThrough g :=
  if_neg fun hret => h hret.1

theorem liftTerminator_ends (fallThrough : BitVec 64)
    (hop : inst.opcode.isControlTransfer = true) (hs : Shaped inst.opcode.format inst.operands)
    (h : Settled valid g₀ l g) :
    ∃ terminator l', l.liftTerminator inst fallThrough = .ok (terminator, l') ∧
      Ends valid g₀ l'.currentInstructions terminator g (nextPC inst fallThrough g) := by
  have hd := decides_of_mem
  obtain ⟨opcode, operands, raw, address⟩ := inst
  cases opcode with
  | jalr => exact liftJalr_ends fallThrough rfl hs h
  | jal =>
    rw [nextPC_of_ne (by simp)]
    exact liftJal_ends fallThrough rfl hs h
  | beq =>
    rw [nextPC_of_ne (by simp)]
    exact createConditionalBranch_ends fallThrough (hd (.beq, .eq) (by simp)) hs h
  | bne =>
    rw [nextPC_of_ne (by simp)]
    exact createConditionalBranch_ends fallThrough (hd (.bne, .ne) (by simp)) hs h
  | blt =>
    rw [nextPC_of_ne (by simp)]
    exact createConditionalBranch_ends fallThrough (hd (.blt, .lt) (by simp)) hs h
  | bge =>
    rw [nextPC_of_ne (by simp)]
    exact createConditionalBranch_ends fallThrough (hd (.bge, .ge) (by simp)) hs h
  | bltu =>
    rw [nextPC_of_ne (by simp)]
    exact createConditionalBranch_ends fallThrough (hd (.bltu, .ltU) (by simp)) hs h
  | bgeu =>
    rw [nextPC_of_ne (by simp)]
    exact createConditionalBranch_ends fallThrough (hd (.bgeu, .geU) (by simp)) hs h
  | _ => cases hop

theorem isTerminator_eq (inst : RiscV.Instruction) :
    isTerminator inst = inst.opcode.isControlTransfer := by
  unfold isTerminator Opcode.isControlTransfer
  cases inst.opcode <;> rfl

/-- The address after `inst` when `rest` follows it. -/
def fallThroughAddress (inst : RiscV.Instruction) : List RiscV.Instruction → BitVec 64
  | next :: _ => next.address
  | [] => inst.address + 4#64

theorem liftInstructions_transfer (h : isTerminator inst = true) (rest : List RiscV.Instruction)
    (terminator : Terminator) (l : Lifter) :
    liftInstructions order (inst :: rest) terminator l =
      (l.finalizeRegisterWrites order).liftTerminator inst (fallThroughAddress inst rest) := by
  simp only [liftInstructions.eq_def order (inst :: rest), h, if_true]
  cases rest <;> rfl

theorem liftBasicBlock_transfer (horder : ∀ rs, (order rs).Perm rs) (l : Lifter)
    {body : List RiscV.Instruction} (rest : List RiscV.Instruction) (hbody : ∀ i ∈ body, Liftable i)
    (hop : inst.opcode.isControlTransfer = true) (hs : Shaped inst.opcode.format inst.operands)
    (hlast : ∃ last, (body ++ inst :: rest).getLast? = some last ∧ isTerminator last = true)
    (hsteps : Isa.steps valid (body.map rescaled) g₀ = some g) :
    ∃ block l', liftBasicBlock order (body ++ inst :: rest) l = .ok (block, l') ∧
      Ends valid g₀ block.instructions block.terminator g
        (nextPC inst (fallThroughAddress inst rest) g) := by
  obtain ⟨l₁, h₁, heq⟩ := liftInstructions_follows order hbody (inBody_cleared valid g₀ l) hsteps
  replace heq := heq (inst :: rest) (.branch 0#64)
  have hterm : isTerminator inst = true := (isTerminator_eq inst).trans hop
  obtain ⟨terminator, l', hok, hends⟩ :=
    liftTerminator_ends (fallThroughAddress inst rest) hop hs (h₁.settle horder)
  rw [liftInstructions_transfer hterm, hok] at heq
  obtain ⟨last, hl, ht⟩ := hlast
  refine ⟨⟨l'.currentInstructions, terminator⟩, l', ?_, hends⟩
  rw [liftBasicBlock_eq, heq, hl]
  simp [Except.bind, ht]

theorem Ends.eval {block : BasicBlock}
    (h : Ends valid g₀ block.instructions block.terminator g pc) :
    evalBlock valid block g₀ = some (g, pc) := by
  obtain ⟨s, hruns, rfl, -, hpc⟩ := h
  simp [evalBlock, hruns.eval, hpc]

theorem Ends.wellTyped {block : BasicBlock}
    (h : Ends valid g₀ block.instructions block.terminator g pc) : block.WellTyped := by
  obtain ⟨s, hruns, -, htyped, -⟩ := h
  exact ⟨s.env.types, hruns.typed, htyped⟩

def straightPart (instructions : List RiscV.Instruction) : List RiscV.Instruction :=
  instructions.takeWhile fun i => !isTerminator i

theorem Liftable.of_supported (h : inst.Supported) (ht : isTerminator inst = false) :
    Liftable inst := by
  refine ⟨?_, h.operands⟩
  have hop := h.opcode
  rw [isTerminator_eq] at ht
  rwa [Opcode.isSupported, ht, Bool.or_false] at hop

theorem straightPart_liftable {instructions : List RiscV.Instruction}
    (h : ∀ i ∈ instructions, i.Supported) : ∀ i ∈ straightPart instructions, Liftable i := by
  intro i hi
  have ht := List.mem_takeWhile_imp hi
  exact .of_supported (h i ((List.takeWhile_prefix _).subset hi)) (by simpa using ht)

theorem isaNextPC_liftable (h : Liftable inst) (fallThrough : BitVec 64) (g : Guest) :
    nextPC inst fallThrough g = fallThrough := by
  obtain ⟨hop, hs⟩ := h
  obtain ⟨opcode, operands, raw, address⟩ := inst
  cases opcode <;> first
    | (cases hop; done)
    | (cases hs
       simp [nextPC, IsReturn, isaNextPC, Isa.immediateForm])

theorem liftBasicBlock_body_ends (horder : ∀ rs, (order rs).Perm rs) (l : Lifter)
    {body : List RiscV.Instruction} (hbody : ∀ i ∈ body, Liftable i)
    (hsteps : Isa.steps valid (body.map rescaled) g₀ = some g) :
    ∃ block l', liftBasicBlock order body l = .ok (block, l') ∧
      Ends valid g₀ block.instructions block.terminator g
        (body.getLast?.elim 0#64 fun last => last.address + 4#64) := by
  obtain ⟨block, l', hok, hterm, hinsts, s, t, hg⟩ := liftBasicBlock_body horder l hbody hsteps
  refine ⟨block, l', hok, s, hinsts ▸ t.runs, hg, ?_, ?_⟩ <;> rw [hterm]
  · exact .branch _
  · rfl

/-- A block whose only control transfer is its last instruction leaves the state that the
instructions before the transfer lead to, and the next program counter computed from it. -/
theorem liftBasicBlock_ends (horder : ∀ rs, (order rs).Perm rs) (l : Lifter)
    {instructions : List RiscV.Instruction} (hne : instructions ≠ [])
    (hsup : ∀ i ∈ instructions, i.Supported)
    (hlast : ∀ i ∈ instructions.dropLast, i.opcode.isControlTransfer = false)
    (hsteps : Isa.steps valid ((straightPart instructions).map rescaled) g₀ = some g) :
    ∃ block l', liftBasicBlock order instructions l = .ok (block, l') ∧
      Ends valid g₀ block.instructions block.terminator g
        (nextPC (instructions.getLast hne) ((instructions.getLast hne).address + 4#64) g) := by
  have hdrop : ∀ i ∈ instructions.dropLast, (!isTerminator i) = true := by
    intro i hi
    rw [isTerminator_eq, hlast i hi]
    rfl
  have hsplit := List.dropLast_append_getLast hne
  set last := instructions.getLast hne with hlastdef
  have hmem : last ∈ instructions := List.getLast_mem hne
  cases ht : isTerminator last with
  | true =>
    have hpart : straightPart instructions = instructions.dropLast := by
      rw [straightPart, ← hsplit, List.takeWhile_append_of_pos (by simpa using hdrop)]
      simp [ht]
    rw [hpart] at hsteps
    have hbody : ∀ i ∈ instructions.dropLast, Liftable i := by
      have := straightPart_liftable hsup
      rwa [hpart] at this
    obtain ⟨block, l', hok, hends⟩ := liftBasicBlock_transfer horder l [] hbody
      ((isTerminator_eq last).symm.trans ht) (hsup last hmem).operands
      ⟨last, by simp, ht⟩ hsteps
    rw [hsplit] at hok
    exact ⟨block, l', hok, hends⟩
  | false =>
    have hall : ∀ i ∈ instructions, (!isTerminator i) = true := by
      intro i hi
      rw [← hsplit, List.mem_append, List.mem_singleton] at hi
      rcases hi with hi | rfl
      · exact hdrop i hi
      · rw [ht]
        rfl
    have hpart : straightPart instructions = instructions := List.takeWhile_eq_self_iff.mpr hall
    rw [hpart] at hsteps
    have hbody : ∀ i ∈ instructions, Liftable i := by
      have := straightPart_liftable hsup
      rwa [hpart] at this
    obtain ⟨block, l', hok, hends⟩ := liftBasicBlock_body_ends horder l hbody hsteps
    rw [List.getLast?_eq_getLast_of_ne_nil hne, Option.elim_some, ← hlastdef] at hends
    rw [isaNextPC_liftable (hbody last hmem)]
    exact ⟨block, l', hok, hends⟩

theorem liftBasicBlock_wellTyped (horder : ∀ rs, (order rs).Perm rs) (l : Lifter)
    {instructions : List RiscV.Instruction} (hsup : ∀ i ∈ instructions, i.Supported)
    (hlast : ∀ i ∈ instructions.dropLast, i.opcode.isControlTransfer = false) :
    ∃ block l', liftBasicBlock order instructions l = .ok (block, l') ∧ block.WellTyped := by
  obtain ⟨g, hsteps⟩ := steps_unrestricted (straightPart_liftable hsup) ⟨fun _ => 0#64, fun _ => 0#8⟩
  by_cases hne : instructions = []
  · subst hne
    obtain ⟨block, l', hok, hends⟩ := liftBasicBlock_body_ends horder l (fun _ hi => by cases hi) hsteps
    exact ⟨block, l', hok, hends.wellTyped⟩
  · obtain ⟨block, l', hok, hends⟩ := liftBasicBlock_ends horder l hne hsup hlast hsteps
    exact ⟨block, l', hok, hends.wellTyped⟩

/-- The link register after a block that ends in `jal` or `jalr`: the block leaves the registers as
the instructions that it executes before the jump leave them. -/
theorem liftBasicBlock_link_iff (horder : ∀ rs, (order rs).Perm rs) (l : Lifter)
    {before : List RiscV.Instruction} {jump : RiscV.Instruction}
    (hbefore : ∀ i ∈ before, i.Supported) (hjump : jump.Supported)
    (hop : jump.opcode = .jal ∨ jump.opcode = .jalr) (g : Guest) :
    ∃ rd block l' beforeBlock l'' g₁ pc₁ g' pc, jump.getRegister 0 = .ok rd ∧
      liftBasicBlock order (before ++ [jump]) l = .ok (block, l') ∧
      liftBasicBlock order (straightPart before) l = .ok (beforeBlock, l'') ∧
      evalBlock unrestricted beforeBlock g = some (g₁, pc₁) ∧
      evalBlock unrestricted block g = some (g', pc) ∧
      ((g'.x rd = jump.address + 4#64 ∧ ∀ r, r ≠ rd → g'.x r = g₁.x r) ↔
        g₁.x rd = jump.address + 4#64) := by
  have hrd : ∃ rd, jump.getRegister 0 = .ok rd := by
    have hs := hjump.operands
    generalize hops : jump.operands = operands at hs
    rcases hop with hop | hop <;> rw [hop] at hs <;> cases hs <;>
      exact ⟨_, by rw [RiscV.Instruction.getRegister, hops]; rfl⟩
  obtain ⟨rd, hrd⟩ := hrd
  have hterm : isTerminator jump = true := by
    rw [isTerminator_eq]
    rcases hop with hop | hop <;> rw [hop] <;> rfl
  have hbody := straightPart_liftable hbefore
  obtain ⟨g₁, hsteps⟩ := steps_unrestricted hbody g
  obtain ⟨beforeBlock, l'', hok₁, hends₁⟩ := liftBasicBlock_body_ends horder l hbody hsteps
  -- the first control transfer of the whole list, and what stands behind it
  have hsplit : ∃ t rest, before ++ [jump] = straightPart before ++ t :: rest ∧
      t ∈ before ++ [jump] ∧ isTerminator t = true := by
    have hcat : straightPart before ++ before.dropWhile (fun i => !isTerminator i) = before :=
      List.takeWhile_append_dropWhile
    cases hdrop : before.dropWhile (fun i => !isTerminator i) with
    | nil =>
      rw [hdrop, List.append_nil] at hcat
      exact ⟨jump, [], by rw [hcat], by simp, hterm⟩
    | cons t rest =>
      rw [hdrop] at hcat
      have ht := List.head_dropWhile_not (fun i => !isTerminator i) (l := before) (by simp [hdrop])
      simp only [hdrop, List.head_cons, Bool.not_eq_false'] at ht
      refine ⟨t, rest ++ [jump], by rw [← List.cons_append, ← List.append_assoc, hcat], ?_, ht⟩
      rw [← hcat]
      simp
  obtain ⟨t, rest, hcat, hmem, ht⟩ := hsplit
  have hsupt : t.Supported := by
    rw [List.mem_append, List.mem_singleton] at hmem
    rcases hmem with hmem | rfl
    · exact hbefore t hmem
    · exact hjump
  obtain ⟨block, l', hok, hends⟩ := liftBasicBlock_transfer horder l rest hbody
    ((isTerminator_eq t).symm.trans ht) hsupt.operands ⟨jump, by rw [← hcat]; simp, hterm⟩ hsteps
  rw [← hcat] at hok
  exact ⟨rd, block, l', beforeBlock, l'', g₁, _, g₁, _, hrd, hok, hok₁, hends₁.eval, hends.eval,
    fun h => h.1, fun h => ⟨h, fun _ _ => rfl⟩⟩

/-- `addi x1, x0, 2000` -/
def loadLink : RiscV.Instruction :=
  ⟨.addi, [.register 1, .register 0, .immediate ((2000#12).signExtend 64)], 0x7D000093#32, 0x7C8#64⟩

/-- `jal x1, 8` -/
def jalForward (address : BitVec 64) : RiscV.Instruction :=
  ⟨.jal, [.register 1, .immediate ((4#20 ++ 0#1).signExtend 64)], 0x008000EF#32, address⟩

/-- Where the link register already holds the return address, the jump is right. -/
theorem liftBasicBlock_link_iff_loadLink :
    ∃ block l' beforeBlock l'' g₁ pc₁ g' pc,
      liftBasicBlock id ([loadLink] ++ [jalForward 0x7CC#64]) init = .ok (block, l') ∧
      liftBasicBlock id (straightPart [loadLink]) init = .ok (beforeBlock, l'') ∧
      evalBlock unrestricted beforeBlock ⟨fun r => BitVec.ofNat 64 r, fun _ => 0#8⟩ =
        some (g₁, pc₁) ∧
      evalBlock unrestricted block ⟨fun r => BitVec.ofNat 64 r, fun _ => 0#8⟩ = some (g', pc) ∧
      g₁.x 1 = 0x7CC#64 + 4#64 ∧ g'.x 1 = 0x7CC#64 + 4#64 ∧ ∀ r, r ≠ 1 → g'.x r = g₁.x r := by
  have hload : ∀ i ∈ [loadLink], i.Supported := by
    intro i hi
    obtain rfl := List.mem_singleton.mp hi
    exact ⟨rfl, .i (by decide) (by decide) 2000#12⟩
  obtain ⟨rd, block, l', beforeBlock, l'', g₁, pc₁, g', pc, hrd, hlift, hlift', hbefore, heval, hiff⟩ :=
    liftBasicBlock_link_iff (fun _ => .refl _) init hload
      (show (jalForward 0x7CC#64).Supported from ⟨rfl, .j (by decide) 4#20⟩) (.inl rfl)
      ⟨fun r => BitVec.ofNat 64 r, fun _ => 0#8⟩
  cases hrd
  have hlink : g₁.x 1 = 0x7CC#64 + 4#64 := by
    cases hlift'
    cases hbefore
    rfl
  exact ⟨block, l', beforeBlock, l'', g₁, pc₁, g', pc, hlift, hlift', hbefore, heval, hlink,
    hiff.mpr hlink⟩

/-- The call does not write its link register. -/
theorem liftBasicBlock_jalForward :
    ∃ block l' g' pc, liftBasicBlock id [jalForward 0x1000#64] init = .ok (block, l') ∧
      evalBlock unrestricted block ⟨fun _ => 0#64, fun _ => 0#8⟩ = some (g', pc) ∧
      ¬ (g'.x 1 = 0x1000#64 + 4#64 ∧ ∀ r, r ≠ 1 → g'.x r = 0#64) :=
  ⟨_, _, _, _, rfl, rfl, fun h => absurd h.1 (by decide)⟩

end DinoRisc.Lifter
