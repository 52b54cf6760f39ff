import TradutorLinux.Pe.Types
import TradutorLinux.Util.Search
import Mathlib.Data.Fintype.Pi

/-!
# The unwinder

A thread has a view of the main image and of the DLLs that it has attached, each
with the function table that `parse_pe` read.  `RtlVirtualUnwind` finds the
function of a PC in these views, undoes the codes of its unwind data on a
context, and follows its `CHAININFO` chain.

## Main definitions

* `findFunctionInImage`, `resolveFunctionByPc`, `resolveFunctionByRawPointer` —
  the entry of an address, and of a pointer to the table in the image.
* `applyUnwindCode`, `applyCodes`
* `virtualUnwind`, `rtlVirtualUnwind`, `unwindOne`.
-/

namespace TradutorLinux.Runtime

open Function

open Pe (RuntimeFunction UnwindCode UnwindInfo UnwindOperation)

/-! ### Types -/

/-- `UnwindImageView`; without an image the base is zero. -/
structure UnwindImageView where
  base : UInt64 := 0
  size : UInt64 := 0
  exceptionDirectoryRva : UInt32 := 0
  functions : List RuntimeFunction := []
deriving DecidableEq

/-- `g_unwind_image` and `g_module_unwind_images` of a thread. -/
structure UnwindImages where
  main : UnwindImageView
  modules : List UnwindImageView
deriving DecidableEq

/-- A pointer to one of the views. -/
inductive ViewRef
  | main
  | module (index : ℕ)
deriving DecidableEq, Repr

/-- `ResolvedFunction`. -/
structure ResolvedFunction where
  view : ViewRef
  index : ℕ
deriving DecidableEq, Repr

/-- `M128A`, as two words. -/
structure M128A where
  low : UInt64 := 0
  high : UInt64 := 0
deriving DecidableEq

/-- The part of `ContextAmd64` that unwinding reads and writes: `rax` to `r15`
in the order of their numbers, `rip`, and the floating point area. -/
structure ContextAmd64 where
  register : Fin 16 → UInt64
  rip : UInt64
  floating : Fin 32 → M128A
deriving DecidableEq

/-- What the thread has in memory: the stack bounds of its TEB, if it has one,
and the bytes that a guarded read gets. -/
structure GuestThread where
  teb : Option (UInt64 × UInt64)
  byte : ℕ → Option UInt8

def kUnwFlagEHandler : UInt8 := 0x1
def kUnwFlagUHandler : UInt8 := 0x2

def kRuntimeFunctionBytes : ℕ := 12

/-- `context_register`. -/
def contextRegister (number : UInt8) : Fin 16 :=
  if h : number.toNat < 15 then ⟨number.toNat, by omega⟩ else 15

/-! The places of the registers that the unwinder and the funclets name. -/

def rax : Fin 16 := 0
def rcx : Fin 16 := 1
def rdx : Fin 16 := 2
def rbx : Fin 16 := 3
def rsp : Fin 16 := 4
def rbp : Fin 16 := 5
def rsi : Fin 16 := 6
def rdi : Fin 16 := 7
def r12 : Fin 16 := 12
def r13 : Fin 16 := 13
def r14 : Fin 16 := 14
def r15 : Fin 16 := 15

namespace ContextAmd64

def setRegister (c : ContextAmd64) (r : Fin 16) (value : UInt64) : ContextAmd64 :=
  { c with register := update c.register r value }

def setFloating (c : ContextAmd64) (i : Fin 32) (value : M128A) : ContextAmd64 :=
  { c with floating := update c.floating i value }

variable {c : ContextAmd64}

theorem register_setRegister (r s : Fin 16) (v : UInt64) :
    (c.setRegister r v).register s = if s = r then v else c.register s := by
  exact update_apply c.register r v s

theorem floating_setFloating (i j : Fin 32) (v : M128A) :
    (c.setFloating i v).floating j = if j = i then v else c.floating j := by
  exact update_apply c.floating i v j

end ContextAmd64

/-! ### Guest memory -/

/-- `add_u64`. -/
def addU64 (value amount : UInt64) : Option UInt64 :=
  if amount.toNat > 2 ^ 64 - 1 - value.toNat then none else some (value + amount)

theorem addU64_eq_some {v a o : UInt64} : addU64 v a = some o ↔ v.toNat + a.toNat = o.toNat := by
  have hv := v.toNat_lt
  have ho := o.toNat_lt
  unfold addU64
  split
  · next hov => constructor <;> intro h <;> first | cases h | omega
  next hf =>
  have ha : (v + a).toNat = v.toNat + a.toNat := by
    rw [UInt64.toNat_add]
    omega
  constructor
  · intro h
    rw [← Option.some.inj h, ha]
  · intro h
    rw [← ha] at h
    rw [UInt64.toNat_inj.1 h]

namespace GuestThread

/-- `validate_guest_stack_range`. -/
def validStackRange (t : GuestThread) (address : UInt64) (size : ℕ) : Bool :=
  if address = 0 ∨ size = 0 ∨ size > 2 ^ 64 - 1 - address.toNat then false
  else
    match t.teb with
    | none => true
    | some (stackLimit, stackBase) =>
      !(stackLimit = 0 || stackBase ≤ stackLimit || address < stackLimit || address ≥ stackBase ||
        size > stackBase.toNat - address.toNat)

/-- `read_guest_memory` of `size` bytes, when all of them can be read. -/
def read (t : GuestThread) (address size : ℕ) : Option ByteString :=
  (List.range' address size).mapM t.byte

/-- `read_u64`. -/
def readU64 (t : GuestThread) (address : UInt64) : Option UInt64 :=
  if t.validStackRange address 8 then
    (t.read address.toNat 8).map fun bytes => UInt64.ofNat (ofLE bytes)
  else none

/-- `read_m128`. -/
def readM128 (t : GuestThread) (address : UInt64) : Option M128A :=
  if t.validStackRange address 16 then
    (t.read address.toNat 16).map fun bytes =>
      ⟨UInt64.ofNat (ofLE (bytes.take 8)), UInt64.ofNat (ofLE (bytes.drop 8))⟩
  else none

end GuestThread

/-! ### Function tables -/

namespace UnwindImageView

/-- The address lies in the image. -/
def covers (view : UnwindImageView) (pc : UInt64) : Bool :=
  view.base != 0 && decide (view.base ≤ pc) && decide (pc - view.base < view.size)

/-- `find_function_in_image`. -/
def findFunctionInImage (view : UnwindImageView) (pc : UInt64) : Option ℕ :=
  if view.base = 0 ∨ pc < view.base ∨ pc - view.base ≥ view.size ∨ view.functions = [] then none
  else
    let rva := (pc - view.base).toNat
    match upperBound (fun fn => decide (rva < fn.beginRva.toNat)) view.functions with
    | 0 => none
    | index + 1 =>
      match view.functions[index]? with
      | none => none
      | some fn =>
        if rva ≥ fn.beginRva.toNat ∧ rva < fn.endRva.toNat then some index else none

/-- `raw_function_entry`. -/
def rawFunctionEntry (view : UnwindImageView) (index : ℕ) : UInt64 :=
  view.base + view.exceptionDirectoryRva.toUInt64 + UInt64.ofNat (index * kRuntimeFunctionBytes)

/-- The first entry of the table whose pointer is the given one. -/
def indexOfRawPointer (view : UnwindImageView) (target : UInt64) : Option ℕ :=
  (List.range view.functions.length).find? fun index => view.rawFunctionEntry index == target

/-- `find_chained_function`. -/
def findChainedFunction (view : UnwindImageView) (function : RuntimeFunction) : Option ℕ :=
  if function.unwind.hasChainedFunction then
    view.functions.findIdx? fun candidate =>
      candidate.beginRva == function.unwind.chainedBeginRva &&
        candidate.endRva == function.unwind.chainedEndRva &&
        candidate.unwindInfoRva == function.unwind.chainedUnwindInfoRva
  else none

/-- `is_v2_epilog`. -/
def isV2Epilog (view : UnwindImageView) (function : RuntimeFunction) (controlPc : UInt64) : Bool :=
  if function.unwind.version ≠ 2 ∨ view.base = 0 ∨ controlPc < view.base then false
  else
    let rva := (controlPc - view.base).toNat
    function.unwind.epilogs.any fun epilog =>
      decide (rva ≥ epilog.beginRva.toNat) && decide (rva < epilog.endRva.toNat)

end UnwindImageView

namespace UnwindImages

/-- The view behind a pointer. -/
def view (images : UnwindImages) : ViewRef → UnwindImageView
  | .main => images.main
  | .module index => images.modules.getD index {}

/-- `find_image_for_pc`. -/
def findImageForPc (images : UnwindImages) (pc : UInt64) : Option ViewRef :=
  if images.main.covers pc then some .main
  else (images.modules.findIdx? fun view => view.covers pc).map .module

/-- `resolve_function_by_pc`. -/
def resolveFunctionByPc (images : UnwindImages) (pc : UInt64) : Option ResolvedFunction :=
  match images.findImageForPc pc with
  | none => none
  | some ref => ((images.view ref).findFunctionInImage pc).map fun index => ⟨ref, index⟩

/-- The loop of `resolve_function_by_raw_pointer` over the modules from number `n` on. -/
def resolveInModules (target : UInt64) : ℕ → List UnwindImageView → Option ResolvedFunction
  | _, [] => none
  | n, view :: modules =>
    match if view.base = 0 then none else view.indexOfRawPointer target with
    | some index => some ⟨.module n, index⟩
    | none => resolveInModules target (n + 1) modules

/-- `resolve_function_by_raw_pointer`. -/
def resolveFunctionByRawPointer (images : UnwindImages) (functionEntry : UInt64) :
    Option ResolvedFunction :=
  if functionEntry = 0 then none
  else
    match if images.main.base = 0 then none else images.main.indexOfRawPointer functionEntry with
    | some index => some ⟨.main, index⟩
    | none => resolveInModules functionEntry 0 images.modules

end UnwindImages

/-! ### Undoing the codes -/

/-- `apply_unwind_code`: the context, and whether the frame is a machine frame. -/
def applyUnwindCode (t : GuestThread) (code : UnwindCode) (context : ContextAmd64)
    (machineFrame : Bool) : Option (ContextAmd64 × Bool) :=
  match code.operation with
  | .pushNonVol => do
    let value ← t.readU64 (context.register rsp)
    let stack ← addU64 (context.register rsp) 8
    some ((context.setRegister rsp stack).setRegister (contextRegister code.operationInfo) value,
      machineFrame)
  | .allocLarge | .allocSmall => do
    let stack ← addU64 (context.register rsp) code.operand.toUInt64
    some (context.setRegister rsp stack, machineFrame)
  | .setFpReg => none
  | .saveNonVol | .saveNonVolFar => do
    let address ← addU64 (context.register rsp) code.operand.toUInt64
    let value ← t.readU64 address
    some (context.setRegister (contextRegister code.operationInfo) value, machineFrame)
  | .saveXmm128 | .saveXmm128Far =>
    if h : code.operationInfo.toNat < 16 then do
      let address ← addU64 (context.register rsp) code.operand.toUInt64
      let value ← t.readM128 address
      some (context.setFloating ⟨10 + code.operationInfo.toNat, by omega⟩ value, machineFrame)
    else none
  | .pushMachFrame => do
    let frame ← addU64 (context.register rsp) (code.operationInfo.toUInt64 * 8)
    let rip ← t.readU64 frame
    let address ← addU64 frame 24
    let stack ← t.readU64 address
    some ({ context with rip := rip }.setRegister rsp stack, true)

/-- What the loops of `RtlVirtualUnwind` carry. -/
structure UnwindState where
  context : ContextAmd64
  establisherFrame : UInt64
  machineFrame : Bool := false

/-- The loop over the codes of a record; `pcOffset` is how far the function has run. -/
def applyCodes (t : GuestThread) (unwind : UnwindInfo) (pcOffset : UInt64) :
    List UnwindCode → UnwindState → Except ByteString UnwindState
  | [], state => .ok state
  | code :: codes, state =>
    if pcOffset < code.codeOffset.toUInt64 then applyCodes t unwind pcOffset codes state
    else if code.operation = .setFpReg then
      let frame := state.context.register (contextRegister unwind.frameRegister)
      let displacement := unwind.frameOffset.toUInt64 * 16
      if frame < displacement then .error (text "frame pointer inválido")
      else
        applyCodes t unwind pcOffset codes
          { state with
            context := state.context.setRegister rsp (frame - displacement)
            establisherFrame := frame - displacement }
    else
      match applyUnwindCode t code state.context state.machineFrame with
      | none => .error (text "pilha ou código de unwind inválido")
      | some (context, machineFrame) =>
        applyCodes t unwind pcOffset codes
          { state with context := context, machineFrame := machineFrame }

/-- The walk over the chain from the entry `current` on, with `remaining`
records still allowed: the last record, and the state behind it. -/
def unwindChain (t : GuestThread) (view : UnwindImageView) :
    ℕ → ℕ → UInt64 → UnwindState → Except ByteString (RuntimeFunction × UnwindState)
  | 0, _, _, _ => .error (text "CHAININFO cíclico")
  | remaining + 1, current, functionPc, state =>
    match view.functions[current]? with
    | none => .error (text "CHAININFO inválido")
    | some function =>
      match applyCodes t function.unwind
          (functionPc - view.base - function.beginRva.toUInt64) function.unwind.codes state with
      | .error detail => .error detail
      | .ok state =>
        if !function.unwind.hasChainedFunction then .ok (function, state)
        else
          match view.findChainedFunction function with
          | none => .error (text "CHAININFO inválido")
          | some chained =>
            -- a chained record stands for a prologue that has run to its end
            let endRva := ((view.functions[chained]?).map (·.endRva)).getD 0
            unwindChain t view remaining chained (view.base + endRva.toUInt64) state

/-! ### `RtlVirtualUnwind` -/

/-- The return of a function whose frame is gone, as `advance_leaf` and the end
of `RtlVirtualUnwind` do it. -/
def advanceLeaf (t : GuestThread) (context : ContextAmd64) : Option ContextAmd64 := do
  let returnAddress ← t.readU64 (context.register rsp)
  let stack ← addU64 (context.register rsp) 8
  some { context.setRegister rsp stack with rip := returnAddress }

/-- What `RtlVirtualUnwind` computes before it publishes anything. -/
structure UnwindOutput where
  context : ContextAmd64
  establisherFrame : UInt64
  handler : UInt64
  handlerData : UInt64

/-- `RtlVirtualUnwind` up to its outputs, or the detail of its trace. -/
def virtualUnwind (images : UnwindImages) (t : GuestThread) (handlerType : UInt32)
    (imageBase controlPc functionEntry : UInt64) (context : ContextAmd64) :
    Except ByteString UnwindOutput :=
  match images.resolveFunctionByRawPointer functionEntry,
      images.resolveFunctionByPc controlPc with
  | some first, some controlFunction =>
    let view := images.view first.view
    match view.functions[first.index]? with
    | none => .error (text "RUNTIME_FUNCTION fora da imagem ativa")
    | some initial =>
      if first ≠ controlFunction ∨ imageBase ≠ view.base then
        .error (text "RUNTIME_FUNCTION fora da imagem ativa")
      else if view.isV2Epilog initial controlPc then
        .error (text "epílogo UNWIND_INFO V2 não é interpretado")
      else
        match unwindChain t view (view.functions.length + 1) first.index controlPc
            ⟨context, context.register rsp, false⟩ with
        | .error detail => .error detail
        | .ok (terminal, state) =>
          match if state.machineFrame then some state.context else advanceLeaf t state.context with
          | none => .error (text "endereço de retorno inválido")
          | some updated =>
            let flags := terminal.unwind.flags
            let inProlog := controlPc - view.base - initial.beginRva.toUInt64 <
              initial.unwind.prologSize.toUInt64
            if inProlog ∨ handlerType = 0 ∨ flags &&& (kUnwFlagEHandler ||| kUnwFlagUHandler) = 0 ∨
                handlerType &&& flags.toUInt32 = 0 then
              .ok ⟨updated, state.establisherFrame, 0, 0⟩
            else
              .ok ⟨updated, state.establisherFrame, view.base + terminal.unwind.handlerRva.toUInt64,
                view.base + terminal.unwind.handlerDataRva.toUInt64⟩
  | _, _ => .error (text "RUNTIME_FUNCTION fora da imagem ativa")

/-- Which pointers of a call can be used: the context for reading and for
writing, and the two outputs, which may be null. -/
structure UnwindPointers where
  readsContext : Bool
  writesContext : Bool
  writesEstablisher : Option Bool
  writesHandlerData : Option Bool

/-- What a call of `RtlVirtualUnwind` returns and what it leaves behind its pointers. -/
structure UnwindReturn where
  value : UInt64 := 0
  context : ContextAmd64
  establisherFrame : Option UInt64 := none
  handlerData : Option UInt64 := none
  failure : Option ByteString := none

/-- `tl_RtlVirtualUnwind`. -/
def rtlVirtualUnwind (images : UnwindImages) (t : GuestThread) (pointers : UnwindPointers)
    (handlerType : UInt32) (imageBase controlPc functionEntry : UInt64) (context : ContextAmd64) :
    UnwindReturn :=
  if !pointers.readsContext then
    { context := context, failure := some (text "ContextRecord inacessível") }
  else
    match virtualUnwind images t handlerType imageBase controlPc functionEntry context with
    | .error detail => { context := context, failure := some detail }
    | .ok output =>
      if pointers.writesEstablisher = some false then
        { context := context, failure := some (text "EstablisherFrame inacessível") }
      else
        let establisherFrame := pointers.writesEstablisher.map fun _ => output.establisherFrame
        if pointers.writesHandlerData = some false then
          { context := context, establisherFrame := establisherFrame
            failure := some (text "HandlerData inacessível") }
        else
          let handlerData := pointers.writesHandlerData.map fun _ => output.handlerData
          if !pointers.writesContext then
            { context := context, establisherFrame := establisherFrame, handlerData := handlerData
              failure := some (text "ContextRecord inacessível") }
          else
            { value := output.handler, context := output.context
              establisherFrame := establisherFrame, handlerData := handlerData }

/-- `UnwoundFrame`. -/
structure UnwoundFrame where
  index : ℕ := 0
  establisherFrame : UInt64 := 0
  handler : UInt64 := 0
  handlerData : UInt64 := 0
  hasFunction : Bool := false
deriving DecidableEq

/-- `unwind_one`: the next context and the frame, or the error. -/
def unwindOne (images : UnwindImages) (t : GuestThread) (handlerType : UInt32)
    (context : ContextAmd64) : Except ByteString (ContextAmd64 × UnwoundFrame) :=
  match images.resolveFunctionByPc context.rip with
  | none =>
    match advanceLeaf t context with
    | none => .error (text "frame folha inválido")
    | some next => .ok (next, {})
  | some found =>
    let view := images.view found.view
    match view.functions[found.index]? with
    | none => .error (text "RtlVirtualUnwind falhou")
    | some function =>
      if view.isV2Epilog function context.rip then
        .error (text "epílogo UNWIND_INFO V2 não é interpretado")
      else
        match virtualUnwind images t handlerType view.base context.rip
            (view.rawFunctionEntry found.index) context with
        | .error _ => .error (text "RtlVirtualUnwind falhou")
        | .ok output =>
          -- an unchanged context without a handler passes for a failure
          if output.handler = 0 ∧ output.context = context then
            .error (text "RtlVirtualUnwind falhou")
          else
            .ok (output.context,
              ⟨found.index, output.establisherFrame, output.handler, output.handlerData, true⟩)

end TradutorLinux.Runtime
