import DinoRisc.Allocation
import DinoRisc.Arm64.EncoderCorrect
import DinoRisc.Arm64.Displacement
import DinoRisc.Arm64.ImmediateFields
import DinoRisc.Dispatch
import DinoRisc.IterationOrder
import DinoRisc.Lifter.Immediate
import DinoRisc.Lifter.Split
import DinoRisc.Lifter.Tail
import DinoRisc.Lowering.CalleeSaved
import DinoRisc.Lowering.Capacity
import DinoRisc.Lowering.BranchBlock
import DinoRisc.Lowering.ConstantLegality
import DinoRisc.Lowering.NarrowTypes
import DinoRisc.Lowering.ShadowRegion
import DinoRisc.Lowering.SingleAssignment
import DinoRisc.Lowering.StateFrame
import DinoRisc.Main
import DinoRisc.ReturningRun
import DinoRisc.Shifts
