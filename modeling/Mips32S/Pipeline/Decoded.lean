import Mips32S.Cpu.Operands
import Mips32S.Isa.Decoder

namespace mips32s.ID

/-- The pending exceptions of a decoded instruction name its operation: at most one
is set, and never for an instruction that accesses memory or the TLB. -/
structure Decoded.Coherent (inst : Word) (d : Decoded) : Prop where
  eret : d.excepttype_is_eret = true → inst = EXE_ERET ∧ d.aluop = .EXE_ERET_OP
  syscall : d.excepttype_is_syscall = true → opcode inst = EXE_SPECIAL_INST ∧
    d.aluop = .EXE_SYSCALL_OP
  invalid : d.instvalid = true → d.aluop = .EXE_NOP_OP

theorem coherent_decode (inst : Word) : (decode inst).Coherent inst := by
  rcases decode_cases inst with hinit | ⟨i, h⟩
  · rw [hinit]
    exact ⟨nofun, nofun, fun _ => rfl⟩
  rw [decode_eq h]
  refine ⟨fun heret => ?_, fun hsys => ?_, fun hinv => ?_⟩
  · cases i with
    | ERET => exact ⟨h, rfl⟩
    | mem op | hilo op => cases op <;> cases heret
    | _ => cases heret
  · cases i with
    | SYSCALL => exact ⟨h.1, rfl⟩
    | mem op | hilo op => cases op <;> cases hsys
    | _ => cases hsys
  · rw [decoded_instvalid] at hinv
    cases hinv

theorem decode_quiet {inst : Word}
    (h : (decode inst).aluop.isMem = true ∨ (decode inst).aluop.isTlbWrite = true) :
    (decode inst).excepttype_is_eret = false ∧ (decode inst).excepttype_is_syscall = false ∧
      (decode inst).instvalid = false := by
  have hcoh := coherent_decode inst
  refine ⟨?_, ?_, ?_⟩
  · by_contra heret
    rw [(hcoh.eret (by simpa using heret)).2] at h
    exact absurd h (by decide)
  · by_contra hsys
    rw [(hcoh.syscall (by simpa using hsys)).2] at h
    exact absurd h (by decide)
  · by_contra hinv
    rw [hcoh.invalid (by simpa using hinv)] at h
    exact absurd h (by decide)

end mips32s.ID
