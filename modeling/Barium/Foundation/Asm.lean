import Barium.Foundation.WordStack

/-!
# Assembly stubs

The code between the hardware and compiled functions: pushes, pops and moves,
accesses relative to the GS base and jumps forward.  A stub is left by a call or
by the return from an interrupt.
-/

namespace Barium
namespace Foundation
namespace Asm

open ByteMemory
open Function

inductive Instr (reg callee : Type) where
  | push (r : reg)
  | pushImm (v : Nat)
  | pop (r : reg)
  | mov (dst src : reg)
  | movRsp (dst : reg)
  | setRsp (src : reg)
  | addRsp (n : Nat)
  | gsLoad (dst : reg) (offset : Nat)
  | gsLoadRsp (offset : Nat)
  | gsStoreRsp (offset : Nat)
  | swapgs
  | test (offset mask : Nat)
  -- to the instruction after the next `skip` ones
  | jz (skip : Nat)
  | call (f : callee)
  | iretq

/-- A processor apart from its instruction pointer; `zf` is the result of the
last `test`. -/
structure Core (reg : Type) where
  gpr : reg -> UInt64
  stack : WordStack
  cs : UInt16
  rflags : UInt64
  ss : UInt16
  gsBase : Nat
  kernelGsBase : Nat
  zf : Bool

section

variable {reg callee : Type}

def Core.iretq (core : Core reg) : UInt64 × Core reg :=
  (UInt64.ofNat core.stack.top,
    { core with
      cs := UInt16.ofNat core.stack.pop.top
      rflags := UInt64.ofNat core.stack.pop.pop.top
      stack := { core.stack with sp := core.stack.pop.pop.pop.top }
      ss := UInt16.ofNat core.stack.pop.pop.pop.pop.top })

theorem Core.iretq_gsBase (core : Core reg) :
    core.iretq.2.gsBase = core.gsBase := by
  unfold Core.iretq
  rfl

theorem Core.iretq_kernelGsBase (core : Core reg) :
    core.iretq.2.kernelGsBase = core.kernelGsBase := by
  unfold Core.iretq
  rfl

variable [DecidableEq reg]

def Instr.exec (core : Core reg) : Instr reg callee -> Core reg
  | .push r => { core with stack := core.stack.push (core.gpr r).toNat }
  | .pushImm v => { core with stack := core.stack.push v }
  | .pop r =>
      { core with
        gpr := update core.gpr r (UInt64.ofNat core.stack.top)
        stack := core.stack.pop }
  | .mov dst src =>
      { core with gpr := update core.gpr dst (core.gpr src) }
  | .movRsp dst =>
      { core with
        gpr := update core.gpr dst (UInt64.ofNat core.stack.sp) }
  | .setRsp src =>
      { core with stack := { core.stack with sp := (core.gpr src).toNat } }
  | .addRsp n => { core with stack := core.stack.skip n }
  | .gsLoad dst offset =>
      { core with
        gpr := update core.gpr dst (UInt64.ofNat
          (loadLE core.stack.mem (Word.add core.gsBase offset) 8)) }
  | .gsLoadRsp offset =>
      { core with
        stack := { core.stack with
          sp := loadLE core.stack.mem (Word.add core.gsBase offset) 8 } }
  | .gsStoreRsp offset =>
      { core with
        stack := { core.stack with
          mem := storeLE core.stack.mem (Word.add core.gsBase offset) 8
            core.stack.sp } }
  | .swapgs =>
      { core with gsBase := core.kernelGsBase, kernelGsBase := core.gsBase }
  | .test offset mask =>
      { core with
        zf := decide ((core.stack.skip offset).top &&& mask = 0) }
  | .jz _ => core
  | .call _ => core
  | .iretq => core

def Instr.straight : Instr reg callee -> Bool
  | .jz _ => false
  | .call _ => false
  | .iretq => false
  | _ => true

def next : List (Instr reg callee) -> Core reg ->
    Option (List (Instr reg callee) × Core reg)
  | [], _ => none
  | .call _ :: _, _ => none
  | .iretq :: _, _ => none
  | .jz skip :: rest, core =>
      some (if core.zf then rest.drop skip else rest, core)
  | i :: rest, core => some (rest, i.exec core)

inductive Exit (reg callee : Type) where
  | call (f : callee) (rest : List (Instr reg callee)) (core : Core reg)
  | iretq (rip : UInt64) (core : Core reg)

/-- The way out of a stub whose first `skip` instructions are jumped over. -/
def toExit : List (Instr reg callee) -> Nat -> Core reg ->
    Option (Exit reg callee)
  | [], _, _ => none
  | _ :: rest, skip + 1, core => toExit rest skip core
  | .call f :: rest, 0, core => some (Exit.call f rest core)
  | .iretq :: _, 0, core =>
      some (Exit.iretq core.iretq.1 core.iretq.2)
  | .jz skip :: rest, 0, core =>
      toExit rest (if core.zf then skip else 0) core
  | i :: rest, 0, core => toExit rest 0 (i.exec core)

/-!
# Blocks
-/

theorem toExit_drop (prog : List (Instr reg callee)) (skip : Nat)
    (core : Core reg) :
    toExit (prog.drop skip) 0 core = toExit prog skip core := by
  induction prog generalizing skip with
  | nil =>
      rw [List.drop_nil]
      rfl
  | cons i rest ih =>
      cases skip with
      | zero => rfl
      | succ skip =>
          rw [List.drop_succ_cons, ih]
          rfl

theorem toExit_cons {i : Instr reg callee} (hi : i.straight = true)
    (rest : List (Instr reg callee)) (core : Core reg) :
    toExit (i :: rest) 0 core = toExit rest 0 (i.exec core) := by
  cases i with
  | jz => cases hi
  | call => cases hi
  | iretq => cases hi
  | _ => rfl

theorem toExit_call (f : callee) (rest : List (Instr reg callee))
    (core : Core reg) :
    toExit (Instr.call f :: rest) 0 core = some (Exit.call f rest core) := by
  rw [toExit]

theorem toExit_iretq (rest : List (Instr reg callee)) (core : Core reg) :
    toExit (Instr.iretq :: rest) 0 core =
      some (Exit.iretq core.iretq.1 core.iretq.2) := by
  rw [toExit]

/-- The way out is the same from every instruction on the way. -/
theorem toExit_next {prog prog' : List (Instr reg callee)}
    {core core' : Core reg} (h : next prog core = some (prog', core')) :
    toExit prog' 0 core' = toExit prog 0 core := by
  cases prog with
  | nil => cases h
  | cons i rest =>
      cases i with
      | call => cases h
      | iretq => cases h
      | jz skip =>
          have hnext : (if core.zf then rest.drop skip else rest, core) =
              (prog', core') := Option.some.inj h
          cases hnext
          show toExit _ 0 core = toExit rest (if core.zf then skip else 0) core
          split
          case isTrue => exact toExit_drop rest skip core
          case isFalse => rfl
      | _ =>
          cases h
          rfl

theorem next_length {prog prog' : List (Instr reg callee)}
    {core core' : Core reg} (h : next prog core = some (prog', core')) :
    prog'.length < prog.length := by
  cases prog with
  | nil => cases h
  | cons i rest =>
      rw [List.length_cons]
      cases i with
      | call => cases h
      | iretq => cases h
      | jz skip =>
          have hnext : (if core.zf then rest.drop skip else rest) = prog' :=
            congrArg Prod.fst (Option.some.inj h)
          rw [← hnext]
          split
          case isTrue =>
              rw [List.length_drop]
              exact Nat.lt_succ_of_le (Nat.sub_le _ _)
          case isFalse => exact Nat.lt_succ_self _
      | _ =>
          cases h
          exact Nat.lt_succ_self _

theorem toExit_append {block : List (Instr reg callee)}
    (h : forall i, i ∈ block -> i.straight = true)
    (rest : List (Instr reg callee)) (core : Core reg) :
    toExit (block ++ rest) 0 core =
      toExit rest 0 (block.foldl Instr.exec core) := by
  induction block generalizing core with
  | nil => rfl
  | cons i block ih =>
      rw [List.cons_append, toExit_cons (h i List.mem_cons_self), ih,
        List.foldl_cons]
      intro j hj
      exact h j (List.mem_cons_of_mem _ hj)

theorem exec_pushes (regs : List reg) (core : Core reg) :
    (regs.map (Instr.push : reg -> Instr reg callee)).foldl Instr.exec core =
      { core with
        stack := core.stack.pushAll
          (regs.map (fun r => (core.gpr r).toNat)) } := by
  induction regs generalizing core with
  | nil => rfl
  | cons r regs ih =>
      rw [List.map_cons, List.foldl_cons, ih]
      rfl

theorem toExit_pushes (regs : List reg) (rest : List (Instr reg callee))
    (core : Core reg) :
    toExit (regs.map Instr.push ++ rest) 0 core =
      toExit rest 0 { core with
        stack := core.stack.pushAll
          (regs.map (fun r => (core.gpr r).toNat)) } := by
  rw [toExit_append, exec_pushes]
  intro i hi
  rcases List.mem_map.mp hi with ⟨r, _, heq⟩
  rw [← heq]
  rfl

def popReg (x : (reg -> UInt64) × WordStack) (r : reg) :
    (reg -> UInt64) × WordStack :=
  (update x.1 r (UInt64.ofNat x.2.top), x.2.pop)

def popAll (regs : List reg) (gpr : reg -> UInt64) (s : WordStack) :
    (reg -> UInt64) × WordStack :=
  regs.foldl popReg (gpr, s)

theorem popAll_cons (r : reg) (rs : List reg) (gpr : reg -> UInt64)
    (s : WordStack) :
    popAll (r :: rs) gpr s =
      popAll rs (update gpr r (UInt64.ofNat s.top)) s.pop :=
  rfl

theorem popAll_stack (rs : List reg) (gpr : reg -> UInt64) (s : WordStack)
    (n : Nat) :
    (popAll rs gpr (s.skip n)).2 = s.skip (n + 8 * rs.length) := by
  induction rs generalizing gpr n with
  | nil => rfl
  | cons r rs ih =>
      rw [popAll_cons, WordStack.pop, WordStack.skip_skip, ih,
        List.length_cons]
      congr 1
      lia

theorem popAll_other {rs : List reg} {r : reg} (hr : r ∉ rs)
    (gpr : reg -> UInt64) (s : WordStack) :
    (popAll rs gpr s).1 r = gpr r := by
  induction rs generalizing gpr s with
  | nil => rfl
  | cons r' rs ih =>
      have hne : r ≠ r' := fun heq => hr (heq ▸ List.mem_cons_self)
      rw [popAll_cons, ih (fun h => hr (List.mem_cons_of_mem _ h)),
        update_of_ne hne]

theorem popAll_get {rs : List reg} {k : Nat} {r : reg} (hnodup : rs.Nodup)
    (hr : rs[k]? = some r) (gpr : reg -> UInt64) (s : WordStack) (n : Nat) :
    (popAll rs gpr (s.skip n)).1 r =
      UInt64.ofNat (s.skip (n + 8 * k)).top := by
  induction rs generalizing gpr n k with
  | nil => cases hr
  | cons r' rs ih =>
      rw [popAll_cons, WordStack.pop, WordStack.skip_skip]
      cases k with
      | zero =>
          rw [← Option.some.inj hr,
            popAll_other (List.nodup_cons.mp hnodup).left,
            update_self]
          rfl
      | succ k =>
          rw [ih (List.nodup_cons.mp hnodup).right hr,
            show n + 8 + 8 * k = n + 8 * (k + 1) by lia]

theorem exec_pops (regs : List reg) (core : Core reg) :
    (regs.map (Instr.pop : reg -> Instr reg callee)).foldl Instr.exec core =
      { core with
        gpr := (popAll regs core.gpr core.stack).1
        stack := (popAll regs core.gpr core.stack).2 } := by
  induction regs generalizing core with
  | nil => rfl
  | cons r regs ih =>
      rw [List.map_cons, List.foldl_cons, ih]
      rfl

theorem toExit_pops (regs : List reg) (rest : List (Instr reg callee))
    (core : Core reg) :
    toExit (regs.map Instr.pop ++ rest) 0 core =
      toExit rest 0 { core with
        gpr := (popAll regs core.gpr core.stack).1
        stack := (popAll regs core.gpr core.stack).2 } := by
  rw [toExit_append, exec_pops]
  intro i hi
  rcases List.mem_map.mp hi with ⟨r, _, heq⟩
  rw [← heq]
  rfl

omit [DecidableEq reg] in
theorem iretq_pushAll (core : Core reg) (s : WordStack)
    (ss rsp rflags cs rip : Nat) :
    { core with stack := s.pushAll [ss, rsp, rflags, cs, rip] }.iretq =
      (UInt64.ofNat (rip % 2 ^ 64),
        { core with
          cs := UInt16.ofNat (cs % 2 ^ 64)
          rflags := UInt64.ofNat (rflags % 2 ^ 64)
          stack :=
            { mem := (s.pushAll [ss, rsp, rflags, cs, rip]).mem
              sp := rsp % 2 ^ 64 }
          ss := UInt16.ofNat (ss % 2 ^ 64) }) := by
  have hword : forall j w,
      [rip, cs, rflags, rsp, ss][j]? = some w ->
      ((s.pushAll [ss, rsp, rflags, cs, rip]).skip (8 * j)).top =
        w % 2 ^ 64 := by
    intro j w hw
    exact WordStack.top_skip_pushAll
      (show 8 * 5 < 2 ^ 64 by decide) hw
  have hrip : (s.pushAll [ss, rsp, rflags, cs, rip]).top = rip % 2 ^ 64 :=
    WordStack.top_push _ _
  unfold Core.iretq
  simp only [WordStack.pop, WordStack.skip_skip]
  rw [hrip, hword 1 cs rfl, hword 2 rflags rfl, hword 3 rsp rfl,
    hword 4 ss rfl]

end

end Asm
end Foundation
end Barium
