import DinoRisc.Lifter.Body

/-!
A list of instructions without control transfers: the lifted block takes every guest state to the
one that the ISA reaches by executing the list.
-/

namespace DinoRisc.Lifter

open IR ByteMemory RiscV

variable {valid : Valid} {g₀ g g' : Guest} {l l' : Lifter} {s s' : EvalState}
  {inst : RiscV.Instruction} {pc : BitVec 64} {order : List ℕ → List ℕ}

/-- The instructions that `liftSingleInstruction` accepts, with the decoder's operands. -/
structure Liftable (inst : RiscV.Instruction) : Prop where
  opcode : (inst.opcode.isStraightLine || inst.opcode.isUpperImmediate) = true
  operands : Shaped inst.opcode.format inst.operands

theorem follows_lui {rd : ℕ} {imm : BitVec 64} (hop : inst.opcode = .lui) (hrd : rd < 32)
    (hops : inst.operands = [.register rd, .immediate imm]) (h : InBody valid g₀ l g) :
    Follows valid g₀ l inst (g.writeRegister rd (imm <<< 12)) := by
  obtain ⟨s, t, p⟩ := h
  obtain ⟨s₁, t₁, e₁, v₁⟩ := t.const64 (imm <<< 12)
  refine ⟨_, ?_, InBody.finish p e₁ t₁ hrd v₁⟩
  simp [liftSingleInstruction, hop, RiscV.Instruction.getRegister,
    RiscV.Instruction.getImmediate, hops]
  rfl

theorem follows_auipc {rd : ℕ} {imm : BitVec 64} (hop : inst.opcode = .auipc) (hrd : rd < 32)
    (hops : inst.operands = [.register rd, .immediate imm]) (h : InBody valid g₀ l g) :
    Follows valid g₀ l inst (g.writeRegister rd (inst.address + imm <<< 12)) := by
  obtain ⟨s, t, p⟩ := h
  obtain ⟨s₁, t₁, e₁, v₁⟩ := t.const64 inst.address
  obtain ⟨s₂, t₂, e₂, v₂⟩ := t₁.addImmediate v₁ (imm <<< 12)
  refine ⟨_, ?_, InBody.finish p (e₁.trans e₂) t₂ hrd v₂⟩
  simp [liftSingleInstruction, hop, RiscV.Instruction.getRegister,
    RiscV.Instruction.getImmediate, hops]
  rfl

theorem follows_upperImmediate (hs : Shaped .u inst.operands)
    (hup : inst.opcode = .lui ∨ inst.opcode = .auipc) (h : InBody valid g₀ l g)
    (hstep : Isa.step valid (rescaled inst) g = some (g', pc)) : Follows valid g₀ l inst g' := by
  generalize hops : inst.operands = operands at hs
  cases hs with
  | u hrd imm =>
    rcases hup with hop | hop
    · simp only [rescaled, hop, Opcode.isUpperImmediate, hops, if_true, Isa.step] at hstep
      cases hstep
      exact follows_lui hop hrd hops h
    · simp only [rescaled, hop, Opcode.isUpperImmediate, hops, if_true, Isa.step] at hstep
      cases hstep
      exact follows_auipc hop hrd hops h

theorem liftSingleInstruction_follows (hi : Liftable inst) (h : InBody valid g₀ l g)
    (hstep : Isa.step valid (rescaled inst) g = some (g', pc)) : Follows valid g₀ l inst g' := by
  obtain ⟨hop, hs⟩ := hi
  by_cases hup : inst.opcode = .lui ∨ inst.opcode = .auipc
  · exact follows_upperImmediate (by rcases hup with h | h <;> simpa [h, Opcode.format] using hs) hup h hstep
  · have hnot : inst.opcode.isUpperImmediate = false := by
      unfold Opcode.isUpperImmediate
      split <;> simp_all
    rw [rescaled_of_not hnot] at hstep
    have hc := computes_of_mem
    obtain ⟨opcode, operands, raw, address⟩ := inst
    dsimp only at hop hs hup hnot
    cases opcode with
    | add => exact follows_register hs (hc (.add, .add) (by simp)) rfl h hstep
    | sub => exact follows_register hs (hc (.sub, .sub) (by simp)) rfl h hstep
    | and => exact follows_register hs (hc (.and, .and) (by simp)) rfl h hstep
    | or => exact follows_register hs (hc (.or, .or) (by simp)) rfl h hstep
    | xor => exact follows_register hs (hc (.xor, .xor) (by simp)) rfl h hstep
    | sll => exact follows_register hs (hc (.sll, .shl) (by simp)) rfl h hstep
    | srl => exact follows_register hs (hc (.srl, .shr) (by simp)) rfl h hstep
    | sra => exact follows_register hs (hc (.sra, .sar) (by simp)) rfl h hstep
    | slt => exact follows_register hs (hc (.slt, .lt) (by simp)) rfl h hstep
    | sltu => exact follows_register hs (hc (.sltu, .ltU) (by simp)) rfl h hstep
    | addi => exact follows_immediate hs rfl (hc (.add, .add) (by simp)) rfl h hstep
    | andi => exact follows_immediate hs rfl (hc (.and, .and) (by simp)) rfl h hstep
    | ori => exact follows_immediate hs rfl (hc (.or, .or) (by simp)) rfl h hstep
    | xori => exact follows_immediate hs rfl (hc (.xor, .xor) (by simp)) rfl h hstep
    | slli => exact follows_immediate hs rfl (hc (.sll, .shl) (by simp)) rfl h hstep
    | srli => exact follows_immediate hs rfl (hc (.srl, .shr) (by simp)) rfl h hstep
    | srai => exact follows_immediate hs rfl (hc (.sra, .sar) (by simp)) rfl h hstep
    | slti => exact follows_immediate hs rfl (hc (.slt, .lt) (by simp)) rfl h hstep
    | sltiu => exact follows_immediate hs rfl (hc (.sltu, .ltU) (by simp)) rfl h hstep
    | addw => exact follows_word hs computesWord_add rfl h hstep
    | addiw => exact follows_wordImmediate hs rfl computesWord_add rfl h hstep
    | slliw => exact follows_wordImmediate hs rfl computesWord_shl rfl h hstep
    | lb => exact follows_load .i8 true hs (by simp) rfl (fun _ => rfl) rfl h hstep
    | lh => exact follows_load .i16 true hs (by simp) rfl (fun _ => rfl) rfl h hstep
    | lw => exact follows_load .i32 true hs (by simp) rfl (fun _ => rfl) rfl h hstep
    | lwu => exact follows_load .i32 false hs (by simp) rfl (fun _ => rfl) rfl h hstep
    | ld =>
      exact follows_load .i64 false hs (by simp) rfl
        (fun x => by simp [Isa.extend, Ty.bytes]) rfl h hstep
    | sd => exact follows_store .i64 hs (by simp) rfl rfl h hstep
    | sw => exact follows_store .i32 hs (by simp) rfl rfl h hstep
    | lui => exact absurd (.inl rfl) hup
    | auipc => exact absurd (.inr rfl) hup
    | _ => cases hop

theorem Liftable.not_isTerminator (h : Liftable inst) : isTerminator inst = false := by
  have hop := h.opcode
  unfold isTerminator
  split <;> simp_all [Opcode.isStraightLine, Opcode.isUpperImmediate]

theorem liftInstructions_cons (h : isTerminator inst = false) (rest : List RiscV.Instruction)
    (terminator : Terminator) (l : Lifter) :
    liftInstructions order (inst :: rest) terminator l =
      (l.liftSingleInstruction inst).bind (liftInstructions order rest terminator) := by
  simp only [liftInstructions.eq_def order (inst :: rest), h]
  rfl

/-- The run lemma: the loop of `liftBasicBlock` before a control transfer. -/
theorem liftInstructions_follows (order : List ℕ → List ℕ) {body : List RiscV.Instruction}
    (hbody : ∀ i ∈ body, Liftable i) (h : InBody valid g₀ l g)
    (hsteps : Isa.steps valid (body.map rescaled) g = some g') :
    ∃ l', InBody valid g₀ l' g' ∧ ∀ rest terminator,
      liftInstructions order (body ++ rest) terminator l =
        liftInstructions order rest terminator l' := by
  induction body generalizing l g with
  | nil =>
    cases hsteps
    exact ⟨l, h, fun _ _ => rfl⟩
  | cons i is ih =>
    simp only [List.map_cons, Isa.steps, Option.bind_eq_some_iff] at hsteps
    obtain ⟨⟨g₁, pc⟩, hstep, hsteps⟩ := hsteps
    have hi := hbody i List.mem_cons_self
    obtain ⟨l₁, hok, h₁⟩ := liftSingleInstruction_follows hi h hstep
    obtain ⟨l', h', heq⟩ := ih (fun j hj => hbody j (List.mem_cons_of_mem i hj)) h₁ hsteps
    refine ⟨l', h', fun rest terminator => ?_⟩
    rw [List.cons_append, liftInstructions_cons hi.not_isTerminator, hok, ← heq]
    rfl

/-- After `finalizeRegisterWrites` the guest state is the sequential one. -/
def Settled (valid : Valid) (g₀ : Guest) (l : Lifter) (g : Guest) : Prop :=
  ∃ s, Tracks valid g₀ l s g ∧ s.guest = g

theorem regWrite_tracks (t : Tracks valid g₀ l s g) {r : ℕ} {id : ValueId} (hr : r < 32)
    (hid : l.cachedRegisterValues r = some id) :
    Tracks valid g₀ (l.addInstruction (.regWrite r id)).2
      { s with guest := { s.guest with x := Function.update s.guest.x r (g.x r) } } g := by
  obtain ⟨-, hv⟩ := t.cached r id hid
  have hstep : evalInstruction valid s ⟨l.nextValueId, .regWrite r id⟩ =
      some { s with guest := { s.guest with x := Function.update s.guest.x r (g.x r) } } := by
    simp [evalInstruction, hv]
  refine ⟨t.runs.snoc (t.fresh _ le_rfl) (.regWrite hr (typed hv)) hstep, ?_, t.mem, t.cached, ?_⟩
  · intro k hk
    have hlt : l.nextValueId < k := hk
    exact t.fresh k hlt.le
  · intro k hk
    have hkr : k ≠ r := by
      rintro rfl
      rw [show l.cachedRegisterValues k = none from hk] at hid
      cases hid
    dsimp only
    rw [Function.update_of_ne hkr]
    exact t.uncached k hk

theorem writes_tracks (rs : List ℕ) (t : Tracks valid g₀ l s g)
    (hrs : ∀ r ∈ rs, r < 32 ∧ (l.cachedRegisterValues r).isSome) :
    ∃ s', Tracks valid g₀ (rs.foldl (fun l regNum =>
        (l.addInstruction (.regWrite regNum ((l.cachedRegisterValues regNum).getD 0))).2) l) s' g ∧
      ∀ r, s'.guest.x r = if r ∈ rs then g.x r else s.guest.x r := by
  induction rs generalizing l s with
  | nil => exact ⟨s, t, by simp⟩
  | cons r rs ih =>
    obtain ⟨hr, hsome⟩ := hrs r List.mem_cons_self
    obtain ⟨id, hid⟩ := Option.isSome_iff_exists.mp hsome
    have t₁ := regWrite_tracks t hr hid
    obtain ⟨s', t', hx⟩ := ih t₁ fun k hk => hrs k (List.mem_cons_of_mem r hk)
    refine ⟨s', by simpa only [List.foldl_cons, hid, Option.getD_some] using t', fun k => ?_⟩
    rw [hx k]
    by_cases hkr : k = r
    · subst hkr
      simp
    · simp [hkr, Function.update_of_ne]

theorem InBody.settle (horder : ∀ rs, (order rs).Perm rs) (h : InBody valid g₀ l g) :
    Settled valid g₀ (l.finalizeRegisterWrites order) g := by
  obtain ⟨s, t, p⟩ := h
  obtain ⟨s', t', hx⟩ := writes_tracks (order l.modifiedRegisters) t fun r hr =>
    p.modified r ((horder _).mem_iff.mp hr)
  refine ⟨s', t', Guest.ext ?_ t'.mem⟩
  funext r
  rw [hx r, p.unwritten]
  split
  · rfl
  · exact (p.kept r fun hr => ‹r ∉ _› ((horder _).mem_iff.mpr hr)).symm

def cleared (l : Lifter) : Lifter :=
  { l with
    currentInstructions := []
    cachedRegisterValues := fun _ => none
    modifiedRegisters := [] }

theorem inBody_cleared (valid : Valid) (g : Guest) (l : Lifter) : InBody valid g l.cleared g :=
  ⟨⟨fun _ => none, g⟩, ⟨.nil _, fun _ _ => rfl, rfl, by simp [cleared], fun _ _ => rfl⟩,
    ⟨rfl, by simp [cleared], fun _ _ => rfl⟩⟩

theorem liftBasicBlock_eq (order : List ℕ → List ℕ) (instructions : List RiscV.Instruction)
    (l : Lifter) : liftBasicBlock order instructions l =
      (liftInstructions order instructions (.branch 0#64) l.cleared).bind fun (terminator, l) =>
        match instructions.getLast? with
        | none => .ok (⟨(l.finalizeRegisterWrites order).currentInstructions, .branch 0#64⟩,
            l.finalizeRegisterWrites order)
        | some last =>
          if !isTerminator last then
            .ok (⟨(l.finalizeRegisterWrites order).currentInstructions,
              .branch (last.address + 4#64)⟩, l.finalizeRegisterWrites order)
          else .ok (⟨l.currentInstructions, terminator⟩, l) := rfl

/-- The block of a list without control transfers branches to the address after it. -/
theorem liftBasicBlock_body (horder : ∀ rs, (order rs).Perm rs) (l : Lifter)
    {body : List RiscV.Instruction} (hbody : ∀ i ∈ body, Liftable i)
    (hsteps : Isa.steps valid (body.map rescaled) g₀ = some g) :
    ∃ block l', liftBasicBlock order body l = .ok (block, l') ∧
      block.terminator = .branch (body.getLast?.elim 0#64 fun last => last.address + 4#64) ∧
      block.instructions = l'.currentInstructions ∧ Settled valid g₀ l' g := by
  obtain ⟨l₁, h₁, heq⟩ := liftInstructions_follows order hbody (inBody_cleared valid g₀ l) hsteps
  have hlift := heq [] (.branch 0#64)
  rw [List.append_nil, liftInstructions] at hlift
  refine ⟨⟨(l₁.finalizeRegisterWrites order).currentInstructions, _⟩, _, ?_, rfl, rfl,
    h₁.settle horder⟩
  rw [liftBasicBlock_eq, hlift]
  cases hlast : body.getLast? with
  | none => simp [Except.bind]
  | some last =>
    have hi := hbody last (List.mem_of_getLast? hlast)
    simp [Except.bind, hi.not_isTerminator]

theorem Settled.eval (h : Settled valid g₀ l g) :
    ∃ env, evalInstructions valid l.currentInstructions ⟨fun _ => none, g₀⟩ = some ⟨env, g⟩ := by
  obtain ⟨s, t, rfl⟩ := h
  exact ⟨s.env, t.runs.eval⟩

def unrestricted : Valid := fun _ _ => true

theorem Liftable.step (hi : Liftable inst) (g : Guest) :
    ∃ g', Isa.step unrestricted (rescaled inst) g = some (g', inst.address + 4#64) := by
  obtain ⟨hop, hs⟩ := hi
  obtain ⟨opcode, operands, raw, address⟩ := inst
  cases opcode <;> first
    | (cases hop; done)
    | (cases hs
       simp [rescaled, Opcode.isUpperImmediate, Isa.step, Isa.stepImmediate, Isa.immediateForm,
         Isa.alu, unrestricted])

theorem steps_unrestricted {body : List RiscV.Instruction} (hbody : ∀ i ∈ body, Liftable i)
    (g : Guest) : ∃ g', Isa.steps unrestricted (body.map rescaled) g = some g' := by
  induction body generalizing g with
  | nil => exact ⟨g, rfl⟩
  | cons i is ih =>
    obtain ⟨g₁, hstep⟩ := (hbody i List.mem_cons_self).step g
    obtain ⟨g', hsteps⟩ := ih (fun j hj => hbody j (List.mem_cons_of_mem i hj)) g₁
    exact ⟨g', by simp [Isa.steps, hstep, hsteps]⟩

theorem map_rescaled {body : List RiscV.Instruction}
    (h : ∀ i ∈ body, i.opcode.isStraightLine = true) : body.map rescaled = body :=
  List.map_congr_left (fun i hi => rescaled_of_not (Opcode.not_isUpperImmediate (h i hi)))
    |>.trans (List.map_id body)

/-- Lifting a list of straight-line instructions preserves its meaning, whatever the order in
which the modified registers are written. -/
theorem liftBasicBlock_straightLine (horder : ∀ rs, (order rs).Perm rs) (l : Lifter)
    {instructions : List RiscV.Instruction} (hne : instructions ≠ [])
    (hstraight : ∀ i ∈ instructions, i.opcode.isStraightLine = true ∧
      Shaped i.opcode.format i.operands) (g : Guest) :
    ∃ block l' g', liftBasicBlock order instructions l = .ok (block, l') ∧
      Isa.steps unrestricted instructions g = some g' ∧
      evalBlock unrestricted block g = some (g', (instructions.getLast hne).address + 4#64) ∧
      block.terminator = .branch ((instructions.getLast hne).address + 4#64) := by
  have hbody : ∀ i ∈ instructions, Liftable i := fun i hi =>
    ⟨by rw [(hstraight i hi).1, Bool.true_or], (hstraight i hi).2⟩
  obtain ⟨g', hsteps⟩ := steps_unrestricted hbody g
  obtain ⟨block, l', hlift, hterm, hinsts, hset⟩ := liftBasicBlock_body horder l hbody hsteps
  rw [List.getLast?_eq_getLast_of_ne_nil hne, Option.elim_some] at hterm
  rw [map_rescaled fun i hi => (hstraight i hi).1] at hsteps
  obtain ⟨env, heval⟩ := hset.eval
  refine ⟨block, l', g', hlift, hsteps, ?_, hterm⟩
  simp [evalBlock, hinsts, heval, hterm, Terminator.nextPC]

theorem liftBasicBlock_straightLine_add :
    ∃ block l' g', liftBasicBlock id [⟨.addi, [.register 1, .register 0,
          .immediate ((5#12).signExtend 64)], 0#32, 0x1000#64⟩,
        ⟨.add, [.register 2, .register 1, .register 1], 0#32, 0x1004#64⟩] init = .ok (block, l') ∧
      Isa.steps unrestricted [⟨.addi, [.register 1, .register 0,
          .immediate ((5#12).signExtend 64)], 0#32, 0x1000#64⟩,
        ⟨.add, [.register 2, .register 1, .register 1], 0#32, 0x1004#64⟩]
        ⟨fun _ => 0#64, fun _ => 0#8⟩ = some g' ∧
      evalBlock unrestricted block ⟨fun _ => 0#64, fun _ => 0#8⟩ = some (g', 0x1008#64) ∧
      block.terminator = .branch 0x1008#64 :=
  liftBasicBlock_straightLine (fun _ => .refl _) init (List.cons_ne_nil _ _) (by
    intro i hi
    simp only [List.mem_cons, List.not_mem_nil, or_false] at hi
    rcases hi with rfl | rfl
    · exact ⟨rfl, .i (by decide) (by decide) 5#12⟩
    · exact ⟨rfl, .r (by decide) (by decide) (by decide)⟩) _

end DinoRisc.Lifter
