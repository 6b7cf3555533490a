import Wavm.LLVMJIT.IR
import Wavm.LLVMJIT.ExternalName
import Mathlib.Data.List.Nodup

/-! # `emitModule`: the LLVM declarations of a Wasm module

`LLVMJIT::emitModule` (`LLVMEmitModule.cpp`, lines 105–214) and the
`EmitModuleContext` constructor (lines 38–93) fill an LLVM module with the
external symbols a compiled module links against, and one function per Wasm
function. The model keeps what they create and what they record:

* the LLVM module is its global values, in creation order, with the attributes
  the emitter sets on functions (calling convention, personality, prefix data);
  a global value whose name is taken is renamed, as LLVM's symbol table does;
* the context keeps the handles of lines 125–191 in its arrays;
* each loop of the source is a function over the number of iterations done;
* an out-of-range read of a `std::vector`, undefined in C++, fails with
  `EmitError.outOfRange`.

The debug-info builder, the metadata of the constructor, and the function-body
emitter (`EmitFunctionContext::emit`, an external collaborator) are not modelled.

Results:

1. every name `emitModule` requests is distinct, so LLVM renames none and every
   global value has the name the emitter asked for (`emitModule_names_distinct`);
2. for a module whose type references are in range, `emitModule` reads no array
   out of range and leaves each handle where the IR index says
   (`emitModule_matches`);
3. the default table and memory offsets are the first handles, and null exactly
   when the module has no table or memory (`emitModule_defaultOffsets`).
-/

namespace Wavm.LLVMJIT

/-! ## The LLVM module -/

inductive CallingConvention where
  /-- LLVM's default, for the functions whose convention is not set. -/
  | c
  | wasm
  deriving DecidableEq, Repr

inductive LLVMType where
  | i32
  | i8Ptr
  deriving DecidableEq, Repr

/-- An LLVM function type. `asLLVMType` (declared outside `src/`) is kept as the
lowering it names. -/
inductive LLVMFunctionType where
  | get (result : LLVMType) (params : List LLVMType)
  | asLLVMType (type : IR.FunctionType) (callingConvention : CallingConvention)
  deriving DecidableEq, Repr

inductive GlobalKind where
  /-- An external `i8` variable with no initializer (`createImportedConstant`). -/
  | importedConstant
  /-- An external function. -/
  | function (type : LLVMFunctionType)
  deriving DecidableEq, Repr

structure GlobalValue where
  name : String
  kind : GlobalKind
  deriving DecidableEq, Repr

/-- An `llvm::Constant*`. -/
inductive Constant where
  | null
  /-- The address of the global value created `id`-th in the module. -/
  | global (id : Nat)
  /-- `llvm::ConstantExpr::getPtrToInt(c, iptrType)`. -/
  | ptrToInt (c : Constant)
  deriving DecidableEq, Repr

/-- What the emitter sets on an LLVM function. -/
structure FunctionAttributes where
  callingConv : CallingConvention
  personalityFn : Constant
  prefixData : Option (List Constant)
  deriving DecidableEq, Repr

/-- A function's attributes before any is set. -/
def FunctionAttributes.none : FunctionAttributes := ⟨.c, .null, Option.none⟩

/-- An `llvm::Module`, as far as the emitter builds it. -/
structure LLVMModule where
  /-- The global values, in creation order. -/
  globals : List GlobalValue
  /-- The counter the module's symbol table renames with. -/
  lastUnique : Nat
  /-- The attributes of the function created `id`-th. -/
  functionAttrs : Nat → FunctionAttributes

def LLVMModule.empty : LLVMModule := ⟨[], 0, fun _ => .none⟩

def LLVMModule.names (m : LLVMModule) : List String := m.globals.map GlobalValue.name

/-- LLVM's `ValueSymbolTable::makeUniqueName` (outside `src/`): `base.N` for the
next value of the counter whose name is free; `fuel` bounds the search. -/
def makeUniqueName (names : List String) (base : String) : Nat → Nat → String × Nat
  | 0, lastUnique => (base, lastUnique)
  | fuel + 1, lastUnique =>
    let candidate := base ++ "." ++ toString (lastUnique + 1)
    if candidate ∈ names then makeUniqueName names base fuel (lastUnique + 1)
    else (candidate, lastUnique + 1)

/-- Creating a global value (`new GlobalVariable`, `Function::Create`) under the
name `requested`, renamed when it is taken; the result is its handle. -/
def LLVMModule.create (m : LLVMModule) (requested : String) (kind : GlobalKind) :
    Nat × LLVMModule :=
  let (name, lastUnique) :=
    if requested ∈ m.names then makeUniqueName m.names requested (m.names.length + 1) m.lastUnique
    else (requested, m.lastUnique)
  (m.globals.length, { m with globals := m.globals ++ [⟨name, kind⟩], lastUnique })

/-- Changing the attributes of one function. -/
def LLVMModule.modifyFunction (m : LLVMModule) (function : Nat)
    (f : FunctionAttributes → FunctionAttributes) : LLVMModule :=
  { m with functionAttrs := Function.update m.functionAttrs function (f (m.functionAttrs function)) }

def LLVMModule.setCallingConv (m : LLVMModule) (function : Nat) (cc : CallingConvention) :
    LLVMModule :=
  m.modifyFunction function fun attrs => { attrs with callingConv := cc }

def LLVMModule.setPersonalityFn (m : LLVMModule) (function : Nat) (personality : Constant) :
    LLVMModule :=
  m.modifyFunction function fun attrs => { attrs with personalityFn := personality }

def LLVMModule.setPrefixData (m : LLVMModule) (function : Nat) (prefixData : List Constant) :
    LLVMModule :=
  m.modifyFunction function fun attrs => { attrs with prefixData := some prefixData }

/-! ## The emission -/

/-- The handles `EmitModuleContext` keeps. -/
structure EmitModuleContext where
  typeIds : List Constant
  tableOffsets : List Constant
  memoryOffsets : List Constant
  globals : List Constant
  exceptionTypeInstances : List Constant
  functions : List Constant
  defaultTableOffset : Constant
  defaultMemoryOffset : Constant
  moduleInstancePointer : Constant
  tableReferenceBias : Constant
  cxaBeginCatchFunction : Constant

/-- The constructor (lines 38–93): outside SEH it declares `__cxa_begin_catch`. -/
def EmitModuleContext.new (target : Target) (m : LLVMModule) : EmitModuleContext × LLVMModule :=
  let (cxaBeginCatchFunction, m) :=
    if !target.useWindowsSEH then
      let (function, m) := m.create "__cxa_begin_catch" (.function (.get .i8Ptr [.i8Ptr]))
      (Constant.global function, m)
    else (.null, m)
  (⟨[], [], [], [], [], [], .null, .null, .null, .null, cxaBeginCatchFunction⟩, m)

/-- `createImportedConstant` (lines 95–103). -/
def createImportedConstant (m : LLVMModule) (externalName : String) : Constant × LLVMModule :=
  let (globalVariable, m) := m.create externalName .importedConstant
  (.global globalVariable, m)

/-- A handle as the loops store it: through `ptrtoint` or not. -/
def wrapHandle (toInt : Bool) (c : Constant) : Constant := if toInt then .ptrToInt c else c

/-- The first `count` iterations of one of the loops of lines 125–168: an imported
constant named `getExternalName(base, index)` for each index, its handle pushed. -/
def importConstants (base : String) (toInt : Bool) :
    Nat → List Constant × LLVMModule → List Constant × LLVMModule
  | 0, acc => acc
  | index + 1, acc =>
    let (handles, m) := importConstants base toInt index acc
    let (c, m) := createImportedConstant m (getExternalName base index)
    (handles ++ [wrapHandle toInt c], m)

inductive EmitError where
  /-- A `std::vector` read past its end, or a handle used as a function that is
  none: undefined behaviour in C++. -/
  | outOfRange
  deriving DecidableEq, Repr

def getOrFail {α : Type} : Option α → Except EmitError α
  | some a => .ok a
  | none => .error .outOfRange

/-- `irModule.types[irModule.functions.getType(functionIndex).index]` (line 180). -/
def functionTypeOf (irModule : IR.Module) (functionIndex : Nat) :
    Except EmitError IR.FunctionType := do
  let type ← getOrFail (irModule.functions.getType functionIndex)
  getOrFail irModule.types[type.index]?

/-- The name of lines 183–185. -/
def functionName (irModule : IR.Module) (functionIndex : Nat) : String :=
  if functionIndex ≥ irModule.functions.imports.length then
    getExternalName "functionDef" (functionIndex - irModule.functions.imports.length)
  else getExternalName "functionImport" functionIndex

/-- The first `count` iterations of lines 177–191. -/
def createFunctions (irModule : IR.Module) (acc : List Constant × LLVMModule) :
    Nat → Except EmitError (List Constant × LLVMModule)
  | 0 => .ok acc
  | functionIndex + 1 => do
    let (functions, m) ← createFunctions irModule acc functionIndex
    let functionType ← functionTypeOf irModule functionIndex
    let (function, m) :=
      m.create (functionName irModule functionIndex) (.function (.asLLVMType functionType .wasm))
    .ok (functions.set functionIndex (.global function), m.setCallingConv function .wasm)

/-- An `llvm::Function*` from a handle. -/
def asFunction : Constant → Except EmitError Nat
  | .global function => .ok function
  | _ => .error .outOfRange

/-- The first `count` iterations of lines 194–211. -/
def emitFunctionDefs (irModule : IR.Module) (ctx : EmitModuleContext)
    (personalityFunction : Constant) (m : LLVMModule) : Nat → Except EmitError LLVMModule
  | 0 => .ok m
  | functionDefIndex + 1 => do
    let m ← emitFunctionDefs irModule ctx personalityFunction m functionDefIndex
    let functionDef ← getOrFail irModule.functions.defs[functionDefIndex]?
    let function ← asFunction (← getOrFail
      ctx.functions[irModule.functions.imports.length + functionDefIndex]?)
    let m := m.setPersonalityFn function personalityFunction
    let (functionInstance, m) :=
      createImportedConstant m (getExternalName "functionDefInstance" functionDefIndex)
    let typeId ← getOrFail ctx.typeIds[functionDef.type.index]?
    .ok (m.setPrefixData function [.ptrToInt functionInstance, typeId])

/-- Lines 107–175: the context, the personality function, and the external
globals, into an empty LLVM module. -/
def emitExternalGlobals (target : Target) (irModule : IR.Module) :
    EmitModuleContext × Constant × LLVMModule :=
  let (ctx, m) := EmitModuleContext.new target LLVMModule.empty
  let (personalityFunction, m) :=
    m.create (personalityName target) (.function (.get .i32 []))
  let (typeIds, m) := importConstants "typeId" true irModule.types.length (ctx.typeIds, m)
  let (tableOffsets, m) := importConstants "tableOffset" true irModule.tables (ctx.tableOffsets, m)
  let defaultTableOffset := match tableOffsets with
    | c :: _ => c
    | [] => ctx.defaultTableOffset
  let (memoryOffsets, m) :=
    importConstants "memoryOffset" true irModule.memories (ctx.memoryOffsets, m)
  let defaultMemoryOffset := match memoryOffsets with
    | c :: _ => c
    | [] => ctx.defaultMemoryOffset
  let (globals, m) := importConstants "global" false irModule.globals (ctx.globals, m)
  let (exceptionTypeInstances, m) :=
    importConstants "exceptionType" false irModule.exceptionTypes (ctx.exceptionTypeInstances, m)
  let (moduleInstancePointer, m) := createImportedConstant m "moduleInstance"
  let (tableReferenceBias, m) := createImportedConstant m "tableReferenceBias"
  ({ ctx with
      typeIds := typeIds, tableOffsets := tableOffsets, defaultTableOffset := defaultTableOffset,
      memoryOffsets := memoryOffsets, defaultMemoryOffset := defaultMemoryOffset,
      globals := globals, exceptionTypeInstances := exceptionTypeInstances,
      moduleInstancePointer := moduleInstancePointer,
      tableReferenceBias := .ptrToInt tableReferenceBias },
    .global personalityFunction, m)

/-- `emitModule` (lines 105–214) into an empty LLVM module. -/
def emitModule (target : Target) (irModule : IR.Module) :
    Except EmitError (EmitModuleContext × LLVMModule) := do
  let (ctx, personalityFunction, m) := emitExternalGlobals target irModule
  let (functions, m) ← createFunctions irModule
    (List.replicate irModule.functions.size .null, m) irModule.functions.size
  let ctx := { ctx with functions := functions }
  let m ← emitFunctionDefs irModule ctx personalityFunction m irModule.functions.defs.length
  .ok (ctx, m)

/-! ## The symbols the emission asks for -/

/-- The symbol of function `functionIndex` (lines 183–185). -/
def functionSymbol (irModule : IR.Module) (functionIndex : Nat) : Symbol :=
  if functionIndex ≥ irModule.functions.imports.length then
    .functionDef (functionIndex - irModule.functions.imports.length)
  else .functionImport functionIndex

theorem functionName_eq (target : Target) (irModule : IR.Module) (functionIndex : Nat) :
    functionName irModule functionIndex = (functionSymbol irModule functionIndex).externalName target := by
  unfold functionName functionSymbol
  split <;> rfl

/-- The symbols lines 107–175 create, in the order they create them. -/
def externalSymbols (target : Target) (irModule : IR.Module) : List Symbol :=
  (if target.useWindowsSEH then [] else [.cxaBeginCatch]) ++ [.personality] ++
  (List.range irModule.types.length).map .typeId ++ (List.range irModule.tables).map .tableOffset ++
  (List.range irModule.memories).map .memoryOffset ++ (List.range irModule.globals).map .global ++
  (List.range irModule.exceptionTypes).map .exceptionType ++ [.moduleInstance] ++
  [.tableReferenceBias]

/-- The symbols the constructor and `emitModule` create, in the order they create
them. -/
def emittedSymbols (target : Target) (irModule : IR.Module) : List Symbol :=
  externalSymbols target irModule ++ (List.range irModule.functions.size).map (functionSymbol irModule) ++
  (List.range irModule.functions.defs.length).map .functionDefInstance

/-- The step of the emission that creates a symbol, in the order of the steps. -/
def Symbol.block : Symbol → Nat
  | .cxaBeginCatch => 0
  | .personality => 1
  | .typeId _ => 2
  | .tableOffset _ => 3
  | .memoryOffset _ => 4
  | .global _ => 5
  | .exceptionType _ => 6
  | .moduleInstance => 7
  | .tableReferenceBias => 8
  | .functionImport _ | .functionDef _ => 9
  | .functionDefInstance _ => 10

/-- The symbols of one step, distinct, in front of those of later steps. -/
theorem nodup_block_append {B rest : List Symbol} {k : Nat} (hB : B.Nodup)
    (hBb : ∀ b ∈ B, b.block = k) (hr : rest.Nodup ∧ ∀ a ∈ rest, k < a.block) :
    (B ++ rest).Nodup ∧ ∀ a ∈ B ++ rest, k ≤ a.block := by
  refine ⟨List.nodup_append.2 ⟨hB, hr.1, fun a ha hra => ?_⟩, fun a ha => ?_⟩
  · have := hr.2 a hra
    rw [hBb a ha] at this
    exact Nat.lt_irrefl _ this
  · rcases List.mem_append.1 ha with ha | ha
    · exact (hBb a ha).ge
    · exact (hr.2 a ha).le

theorem block_map_range {f : Nat → Symbol} {k : Nat} (hf : ∀ i, (f i).block = k) (n : Nat) :
    ∀ b ∈ (List.range n).map f, b.block = k := by
  intro b hb
  obtain ⟨i, -, rfl⟩ := List.mem_map.1 hb
  exact hf i

theorem functionSymbol_nodup (irModule : IR.Module) (n : Nat) :
    ((List.range n).map (functionSymbol irModule)).Nodup := by
  refine (List.nodup_range n).map_on fun i _ j _ h => ?_
  unfold functionSymbol at h
  split_ifs at h <;> simp only [Symbol.functionDef.injEq, Symbol.functionImport.injEq] at h <;>
    omega

/-- Every symbol is created once. -/
theorem emittedSymbols_nodup (target : Target) (irModule : IR.Module) :
    (emittedSymbols target irModule).Nodup := by
  have hr : ∀ {f : Nat → Symbol}, Function.Injective f → ∀ n, ((List.range n).map f).Nodup :=
    fun hf n => (List.nodup_range n).map hf
  have hfun : ∀ i, (functionSymbol irModule i).block = 9 := by
    intro i; unfold functionSymbol; split <;> rfl
  have h10 := nodup_block_append (hr (fun _ _ => Symbol.functionDefInstance.inj) irModule.functions.defs.length)
    (block_map_range (f := Symbol.functionDefInstance) (fun _ => rfl) irModule.functions.defs.length) ⟨List.nodup_nil, nofun⟩
  have h9 := nodup_block_append (functionSymbol_nodup irModule irModule.functions.size)
    (block_map_range hfun irModule.functions.size)
    (by simpa only [List.append_nil] using h10)
  have h78 := nodup_block_append (k := 7) (B := [.moduleInstance]) (by simp) (by simp [Symbol.block])
    (nodup_block_append (k := 8) (B := [.tableReferenceBias]) (by simp) (by simp [Symbol.block]) h9)
  have h6 := nodup_block_append (hr (fun _ _ => Symbol.exceptionType.inj) irModule.exceptionTypes)
    (block_map_range (f := Symbol.exceptionType) (fun _ => rfl) irModule.exceptionTypes) h78
  have h5 := nodup_block_append (hr (fun _ _ => Symbol.global.inj) irModule.globals)
    (block_map_range (f := Symbol.global) (fun _ => rfl) irModule.globals) h6
  have h4 := nodup_block_append (hr (fun _ _ => Symbol.memoryOffset.inj) irModule.memories)
    (block_map_range (f := Symbol.memoryOffset) (fun _ => rfl) irModule.memories) h5
  have h3 := nodup_block_append (hr (fun _ _ => Symbol.tableOffset.inj) irModule.tables)
    (block_map_range (f := Symbol.tableOffset) (fun _ => rfl) irModule.tables) h4
  have h2 := nodup_block_append (hr (fun _ _ => Symbol.typeId.inj) irModule.types.length)
    (block_map_range (f := Symbol.typeId) (fun _ => rfl) irModule.types.length) h3
  have h1 := nodup_block_append (k := 1) (B := [.personality]) (by simp) (by simp [Symbol.block]) h2
  have h0 := nodup_block_append (k := 0)
    (B := if target.useWindowsSEH then [] else [.cxaBeginCatch]) (by split <;> simp)
    (by split <;> simp [Symbol.block]) h1
  simpa only [emittedSymbols, externalSymbols, List.append_assoc, List.cons_append,
    List.nil_append] using h0.1

/-! ## Creating under names that are free -/

section Creation

variable {target : Target}

theorem bind_eq_ok {α β : Type} {x : Except EmitError α} {f : α → Except EmitError β} {b : β}
    (h : x >>= f = .ok b) : ∃ a, x = .ok a ∧ f a = .ok b := by
  cases x with
  | error e => cases h
  | ok a => exact ⟨a, rfl, h⟩

@[simp] theorem getOrFail_some {α : Type} (a : α) : getOrFail (some a) = .ok a := rfl

@[simp] theorem getOrFail_none {α : Type} : getOrFail (none : Option α) = .error .outOfRange := rfl

@[simp] theorem getOrFail_eq_ok {α : Type} {o : Option α} {a : α} :
    getOrFail o = .ok a ↔ o = some a := by
  cases o <;> simp [getOrFail]

@[simp] theorem asFunction_eq_ok {c : Constant} {function : Nat} :
    asFunction c = .ok function ↔ c = .global function := by
  cases c <;> simp [asFunction]

@[simp] theorem LLVMModule.modifyFunction_globals (m : LLVMModule) (function : Nat)
    (f : FunctionAttributes → FunctionAttributes) : (m.modifyFunction function f).globals = m.globals :=
  rfl

@[simp] theorem LLVMModule.modifyFunction_names (m : LLVMModule) (function : Nat)
    (f : FunctionAttributes → FunctionAttributes) : (m.modifyFunction function f).names = m.names :=
  rfl

theorem LLVMModule.modifyFunction_attrs (m : LLVMModule) (function : Nat)
    (f : FunctionAttributes → FunctionAttributes) (id : Nat) :
    (m.modifyFunction function f).functionAttrs id =
      if id = function then f (m.functionAttrs function) else m.functionAttrs id := by
  simp only [LLVMModule.modifyFunction, Function.update_apply]

/-- Setting an attribute other than the calling convention keeps every calling
convention. -/
theorem LLVMModule.modifyFunction_callingConv (m : LLVMModule) (function : Nat)
    {f : FunctionAttributes → FunctionAttributes} (hf : ∀ a, (f a).callingConv = a.callingConv)
    (id : Nat) :
    ((m.modifyFunction function f).functionAttrs id).callingConv = (m.functionAttrs id).callingConv := by
  rw [LLVMModule.modifyFunction_attrs]
  split_ifs with h
  · rw [hf, h]
  · rfl

theorem LLVMModule.setPersonalityFn_callingConv (m : LLVMModule) (function : Nat)
    (personality : Constant) (id : Nat) :
    ((m.setPersonalityFn function personality).functionAttrs id).callingConv =
      (m.functionAttrs id).callingConv :=
  m.modifyFunction_callingConv function (by intro; rfl) id

theorem LLVMModule.setPrefixData_callingConv (m : LLVMModule) (function : Nat)
    (prefixData : List Constant) (id : Nat) :
    ((m.setPrefixData function prefixData).functionAttrs id).callingConv =
      (m.functionAttrs id).callingConv :=
  m.modifyFunction_callingConv function (by intro; rfl) id

theorem LLVMModule.names_append (m : LLVMModule) (gs : List GlobalValue) :
    ({ m with globals := m.globals ++ gs } : LLVMModule).names = m.names ++ gs.map GlobalValue.name := by
  simp [LLVMModule.names]

/-- A global value requested under the name of a symbol not created yet gets that
name. -/
theorem LLVMModule.create_fresh {m : LLVMModule} {syms : List Symbol} {s : Symbol}
    {requested : String} (hm : m.names = syms.map (Symbol.externalName target))
    (hs : (syms ++ [s]).Nodup) (hreq : requested = s.externalName target) (kind : GlobalKind) :
    m.create requested kind =
      (m.globals.length, { m with globals := m.globals ++ [⟨requested, kind⟩] }) := by
  have hnot : requested ∉ m.names := by
    rw [hm, hreq, List.mem_map_of_injective (externalName_injective target)]
    exact fun h => (List.nodup_append.1 hs).2.2 h (List.mem_singleton_self s)
  simp only [LLVMModule.create, if_neg hnot]

/-- `create_fresh`, as the stage of a run it is: the handle and what the new
module keeps. -/
theorem LLVMModule.create_stage {m : LLVMModule} {syms : List Symbol} {s : Symbol}
    {requested : String} (hm : m.names = syms.map (Symbol.externalName target))
    (hs : (syms ++ [s]).Nodup) (hreq : requested = s.externalName target) (kind : GlobalKind) :
    ∃ m', m.create requested kind = (m.globals.length, m') ∧
      m'.names = (syms ++ [s]).map (Symbol.externalName target) ∧
      m'.globals = m.globals ++ [⟨requested, kind⟩] ∧ m'.functionAttrs = m.functionAttrs ∧
      m'.lastUnique = m.lastUnique :=
  ⟨_, LLVMModule.create_fresh hm hs hreq kind, by rw [LLVMModule.names_append, hm, hreq]; simp,
    rfl, rfl, rfl⟩

/-- `c` is the address of the global value `g` of `m`. -/
def LLVMModule.Holds (m : LLVMModule) (c : Constant) (g : GlobalValue) : Prop :=
  ∃ id, c = .global id ∧ m.globals[id]? = some g

theorem LLVMModule.Holds.mono {m m' : LLVMModule} {c : Constant} {g : GlobalValue}
    (h : m.Holds c g) (hp : m.globals <+: m'.globals) : m'.Holds c g := by
  obtain ⟨id, rfl, hid⟩ := h
  obtain ⟨t, ht⟩ := hp
  obtain ⟨hlt, -⟩ := List.getElem?_eq_some_iff.1 hid
  exact ⟨id, rfl, by rw [← ht, List.getElem?_append_left hlt, hid]⟩

/-- `handles[k]` is `wrap` of the address of the imported constant
`getExternalName(base, k)`, for each `k` below `count`. -/
def LLVMModule.ImportedHandles (m : LLVMModule) (handles : List Constant) (base : String)
    (wrap : Constant → Constant) (count : Nat) : Prop :=
  handles.length = count ∧ ∀ k < count, ∃ c, handles[k]? = some (wrap c) ∧
    m.Holds c ⟨getExternalName base k, .importedConstant⟩

theorem LLVMModule.ImportedHandles.mono {m m' : LLVMModule} {handles : List Constant}
    {base : String} {wrap : Constant → Constant} {count : Nat}
    (h : m.ImportedHandles handles base wrap count)
    (hp : m.globals <+: m'.globals) : m'.ImportedHandles handles base wrap count :=
  ⟨h.1, fun k hk =>
    let ⟨c, hc, hh⟩ := h.2 k hk
    ⟨c, hc, hh.mono hp⟩⟩

end Creation

/-! ## The loops -/

section Loops

variable {target : Target}

/-- The loops of lines 125–168 create `getExternalName(base, i)` for each index in
turn, each under its own name while those names are free. -/
theorem importConstants_eq {base : String} {toInt : Bool} {kind : Nat → Symbol}
    (hkind : ∀ i, getExternalName base i = (kind i).externalName target) {syms : List Symbol}
    {handles : List Constant} {m : LLVMModule}
    (hm : m.names = syms.map (Symbol.externalName target)) :
    ∀ {count : Nat}, (syms ++ (List.range count).map kind).Nodup →
      importConstants base toInt count (handles, m) =
        (handles ++ (List.range count).map fun i => wrapHandle toInt (.global (m.globals.length + i)),
          { m with globals := m.globals ++ (List.range count).map fun i =>
              ⟨getExternalName base i, .importedConstant⟩ })
  | 0, _ => by simp [importConstants]
  | count + 1, hnd => by
    rw [List.range_succ, List.map_append, ← List.append_assoc] at hnd
    have hm' : ({ m with globals := m.globals ++ (List.range count).map fun i =>
        (⟨getExternalName base i, .importedConstant⟩ : GlobalValue) } : LLVMModule).names =
        (syms ++ (List.range count).map kind).map (Symbol.externalName target) := by
      rw [LLVMModule.names_append, hm]
      simp [Function.comp_def, hkind]
    simp only [importConstants, importConstants_eq hkind hm hnd.of_append_left,
      createImportedConstant, LLVMModule.create_fresh hm' hnd (hkind count)]
    simp [List.range_succ]

/-- A loop of lines 125–168 from an empty array: it requests the names of its
symbols, only adds global values, and leaves the handle of index `k` at `k`. -/
theorem importConstants_spec {base : String} (toInt : Bool) {kind : Nat → Symbol}
    {syms : List Symbol} {m : LLVMModule} (hm : m.names = syms.map (Symbol.externalName target))
    {count : Nat} (hnd : (syms ++ (List.range count).map kind).Nodup)
    (hkind : ∀ i, getExternalName base i = (kind i).externalName target) :
    ∃ handles m', importConstants base toInt count ([], m) = (handles, m') ∧
      m'.names = (syms ++ (List.range count).map kind).map (Symbol.externalName target) ∧
      m.globals <+: m'.globals ∧ m'.ImportedHandles handles base (wrapHandle toInt) count ∧
      m'.functionAttrs = m.functionAttrs ∧ m'.lastUnique = m.lastUnique := by
  rw [importConstants_eq hkind hm hnd]
  refine ⟨_, _, rfl, ?_, List.prefix_append _ _, ⟨by simp, fun k hk =>
    ⟨.global (m.globals.length + k), ?_, m.globals.length + k, rfl, ?_⟩⟩, rfl, rfl⟩
  · rw [LLVMModule.names_append, hm]
    simp [Function.comp_def, hkind]
  · simp [List.getElem?_range hk]
  · rw [List.getElem?_append_right (by omega)]
    simp [List.getElem?_range hk]

/-- What the first `count` iterations of lines 177–191 leave, from a null handle
for each function and the module `m`. -/
structure FunctionsCreated (irModule : IR.Module) (m : LLVMModule) (count : Nat)
    (functions : List Constant) (m' : LLVMModule) : Prop where
  length : functions.length = irModule.functions.size
  handle : ∀ i < count, functions[i]? = some (.global (m.globals.length + i))
  names : m'.names = m.names ++ (List.range count).map (functionName irModule)
  grows : m.globals <+: m'.globals
  length_globals : m'.globals.length = m.globals.length + count
  global : ∀ i < count, ∃ ft, functionTypeOf irModule i = .ok ft ∧
    m'.globals[m.globals.length + i]? =
      some ⟨functionName irModule i, .function (.asLLVMType ft .wasm)⟩
  callingConv : ∀ i < count, (m'.functionAttrs (m.globals.length + i)).callingConv = .wasm
  lastUnique : m'.lastUnique = m.lastUnique

theorem createFunctions_spec {irModule : IR.Module} {syms : List Symbol} {m : LLVMModule}
    (hm : m.names = syms.map (Symbol.externalName target)) :
    ∀ {count : Nat} {functions : List Constant} {m' : LLVMModule},
      count ≤ irModule.functions.size →
      (syms ++ (List.range count).map (functionSymbol irModule)).Nodup →
      createFunctions irModule (List.replicate irModule.functions.size .null, m) count =
        .ok (functions, m') →
      FunctionsCreated irModule m count functions m'
  | 0, functions, m', _, _, h => by
    simp only [createFunctions, Except.ok.injEq, Prod.mk.injEq] at h
    obtain ⟨rfl, rfl⟩ := h
    exact ⟨by simp, nofun, by simp, List.prefix_refl _, rfl, nofun, nofun, rfl⟩
  | count + 1, functions, m', hc, hnd, h => by
    rw [List.range_succ, List.map_append, ← List.append_assoc] at hnd
    simp only [createFunctions] at h
    obtain ⟨⟨fs, m₁⟩, h₁, h⟩ := bind_eq_ok h
    have ih := createFunctions_spec hm (by omega) hnd.of_append_left h₁
    dsimp only at h
    obtain ⟨ft, hft, h⟩ := bind_eq_ok h
    have hm₁ : m₁.names =
        (syms ++ (List.range count).map (functionSymbol irModule)).map (Symbol.externalName target) := by
      rw [ih.names, hm]
      simp [Function.comp_def, functionName_eq target]
    rw [LLVMModule.create_fresh hm₁ hnd (functionName_eq target irModule count)] at h
    simp only [Except.ok.injEq, Prod.mk.injEq] at h
    obtain ⟨rfl, rfl⟩ := h
    have hlen := ih.length_globals
    refine ⟨by simp [ih.length], fun i hi => ?_, ?_, ih.grows.trans (List.prefix_append _ _),
      by simp [LLVMModule.setCallingConv, hlen, Nat.add_assoc], fun i hi => ?_, fun i hi => ?_,
      ih.lastUnique⟩
    · rcases Nat.lt_succ_iff_lt_or_eq.1 hi with hi | rfl
      · rw [List.getElem?_set_ne (by omega)]; exact ih.handle i hi
      · rw [List.getElem?_set_self (by rw [ih.length]; omega), hlen]
    · have hn := ih.names
      simp only [LLVMModule.setCallingConv, LLVMModule.modifyFunction_names, LLVMModule.names] at hn ⊢
      simp [hn, List.range_succ]
    · simp only [LLVMModule.setCallingConv, LLVMModule.modifyFunction_globals]
      rcases Nat.lt_succ_iff_lt_or_eq.1 hi with hi | rfl
      · rw [List.getElem?_append_left (by omega)]; exact ih.global i hi
      · exact ⟨ft, hft, by rw [List.getElem?_append_right (by omega)]; simp [hlen]⟩
    · simp only [LLVMModule.setCallingConv, LLVMModule.modifyFunction_attrs]
      rcases Nat.lt_succ_iff_lt_or_eq.1 hi with hi | rfl
      · rw [if_neg (by omega)]; exact ih.callingConv i hi
      · rw [if_pos (by omega)]

/-- What the first `count` iterations of lines 194–211 leave. -/
structure DefsEmitted (irModule : IR.Module) (ctx : EmitModuleContext)
    (personalityFunction : Constant) (m : LLVMModule) (count : Nat) (m' : LLVMModule) : Prop where
  globals : m'.globals = m.globals ++ (List.range count).map fun j =>
    ⟨getExternalName "functionDefInstance" j, .importedConstant⟩
  callingConv : ∀ id, (m'.functionAttrs id).callingConv = (m.functionAttrs id).callingConv
  defs : ∀ j < count, ∃ function functionDef typeId,
    ctx.functions[irModule.functions.imports.length + j]? = some (.global function) ∧
    irModule.functions.defs[j]? = some functionDef ∧
    ctx.typeIds[functionDef.type.index]? = some typeId ∧
    (m'.functionAttrs function).personalityFn = personalityFunction ∧
    (m'.functionAttrs function).prefixData =
      some [.ptrToInt (.global (m.globals.length + j)), typeId]
  lastUnique : m'.lastUnique = m.lastUnique

theorem emitFunctionDefs_spec {irModule : IR.Module} {ctx : EmitModuleContext}
    {personalityFunction : Constant} {syms : List Symbol} {m : LLVMModule}
    (hm : m.names = syms.map (Symbol.externalName target))
    (hfun : ∀ j₁ j₂ function,
      ctx.functions[irModule.functions.imports.length + j₁]? = some (.global function) →
      ctx.functions[irModule.functions.imports.length + j₂]? = some (.global function) → j₁ = j₂) :
    ∀ {count : Nat} {m' : LLVMModule},
      (syms ++ (List.range count).map Symbol.functionDefInstance).Nodup →
      emitFunctionDefs irModule ctx personalityFunction m count = .ok m' →
      DefsEmitted irModule ctx personalityFunction m count m'
  | 0, m', _, h => by
    simp only [emitFunctionDefs, Except.ok.injEq] at h
    subst h
    exact ⟨by simp, fun _ => rfl, nofun, rfl⟩
  | count + 1, m', hnd, h => by
    rw [List.range_succ, List.map_append, ← List.append_assoc] at hnd
    simp only [emitFunctionDefs] at h
    obtain ⟨m₁, h₁, h⟩ := bind_eq_ok h
    have ih := emitFunctionDefs_spec hm hfun hnd.of_append_left h₁
    obtain ⟨functionDef, hd, h⟩ := bind_eq_ok h
    obtain ⟨c, hc, h⟩ := bind_eq_ok h
    obtain ⟨function, hf, h⟩ := bind_eq_ok h
    rw [asFunction_eq_ok] at hf
    rw [getOrFail_eq_ok] at hd
    rw [getOrFail_eq_ok, hf] at hc
    have hm₁ : (m₁.setPersonalityFn function personalityFunction).names =
        (syms ++ (List.range count).map Symbol.functionDefInstance).map (Symbol.externalName target) := by
      simp only [LLVMModule.setPersonalityFn, LLVMModule.names, LLVMModule.modifyFunction_globals,
        ih.globals, List.map_append]
      rw [← LLVMModule.names, hm]
      simp [Function.comp_def, Symbol.externalName]
    have hreq : getExternalName "functionDefInstance" count =
        (Symbol.functionDefInstance count).externalName target := rfl
    simp only [createImportedConstant, LLVMModule.create_fresh hm₁ hnd hreq] at h
    obtain ⟨typeId, ht, h⟩ := bind_eq_ok h
    rw [getOrFail_eq_ok] at ht
    rw [Except.ok.injEq] at h
    subst h
    have hlen : m₁.globals.length = m.globals.length + count := by
      rw [ih.globals, List.length_append, List.length_map, List.length_range]
    refine ⟨?_, fun id => ?_, fun j hj => ?_, ih.lastUnique⟩
    · simp only [LLVMModule.setPrefixData, LLVMModule.setPersonalityFn,
        LLVMModule.modifyFunction_globals, ih.globals, List.range_succ, List.map_append,
        List.map_cons, List.map_nil, List.append_assoc]
    · rw [LLVMModule.setPrefixData_callingConv]
      exact (LLVMModule.setPersonalityFn_callingConv _ _ _ id).trans (ih.callingConv id)
    · rcases Nat.lt_succ_iff_lt_or_eq.1 hj with hj | rfl
      · obtain ⟨g, d, t, hg, hd', ht', hp, hpre⟩ := ih.defs j hj
        have hne : g ≠ function := fun e => by
          subst e; exact absurd (hfun j count g hg hc) (by omega)
        refine ⟨g, d, t, hg, hd', ht', ?_, ?_⟩ <;>
          simp only [LLVMModule.setPrefixData, LLVMModule.setPersonalityFn,
            LLVMModule.modifyFunction_attrs, if_neg hne, hp, hpre]
      · refine ⟨function, functionDef, typeId, hc, hd, ht, ?_, ?_⟩ <;>
          simp only [LLVMModule.setPrefixData, LLVMModule.setPersonalityFn,
            LLVMModule.modifyFunction_attrs, LLVMModule.modifyFunction_globals,
            ite_true, hlen]

theorem functionTypeOf_eq_ok {irModule : IR.Module} {functionIndex : Nat} {ft : IR.FunctionType} :
    functionTypeOf irModule functionIndex = .ok ft ↔
      ∃ t, irModule.functions.getType functionIndex = some t ∧ irModule.types[t.index]? = some ft := by
  unfold functionTypeOf
  cases irModule.functions.getType functionIndex <;> simp [bind, Except.bind]

/-- In a module whose type references are in range, line 180 reads in bounds. -/
theorem functionTypeOf_ok {irModule : IR.Module} (hm : irModule.TypesInRange) {i : Nat}
    (hi : i < irModule.functions.size) : ∃ ft, functionTypeOf irModule i = .ok ft := by
  obtain ⟨t, ht, hlt⟩ := hm.getType hi
  exact ⟨_, functionTypeOf_eq_ok.2 ⟨t, ht, List.getElem?_eq_getElem hlt⟩⟩

/-- Lines 177–191 fail only where line 180 does. -/
theorem createFunctions_ok {irModule : IR.Module} (acc : List Constant × LLVMModule) :
    ∀ {count : Nat}, (∀ i < count, ∃ ft, functionTypeOf irModule i = .ok ft) →
      ∃ r, createFunctions irModule acc count = .ok r
  | 0, _ => ⟨acc, rfl⟩
  | count + 1, h => by
    obtain ⟨⟨functions, m⟩, e⟩ := @createFunctions_ok irModule acc count fun i hi => h i (by omega)
    obtain ⟨ft, hft⟩ := h count (by omega)
    simp [createFunctions, e, hft, bind, Except.bind]

/-- Lines 194–211 fail only where a read of lines 196–197 or 209 does. -/
theorem emitFunctionDefs_ok {irModule : IR.Module} {ctx : EmitModuleContext}
    {personalityFunction : Constant} {m : LLVMModule} :
    ∀ {count : Nat}, (∀ j < count, ∃ functionDef function typeId,
      irModule.functions.defs[j]? = some functionDef ∧
      ctx.functions[irModule.functions.imports.length + j]? = some (.global function) ∧
      ctx.typeIds[functionDef.type.index]? = some typeId) →
      ∃ m', emitFunctionDefs irModule ctx personalityFunction m count = .ok m'
  | 0, _ => ⟨m, rfl⟩
  | count + 1, h => by
    obtain ⟨m₁, e⟩ := @emitFunctionDefs_ok irModule ctx personalityFunction m count
      fun j hj => h j (by omega)
    obtain ⟨functionDef, function, typeId, hd, hf, ht⟩ := h count (by omega)
    simp [emitFunctionDefs, e, hd, hf, ht, asFunction, bind, Except.bind]

end Loops

/-! ## The external globals -/

section ExternalGlobals

/-- What lines 107–175 leave: the external symbols under their own names, each
handle where its index says, and no function attribute set. -/
structure ExternalGlobals (target : Target) (irModule : IR.Module) (ctx : EmitModuleContext)
    (personalityFunction : Constant) (m : LLVMModule) : Prop where
  names : m.names = (externalSymbols target irModule).map (Symbol.externalName target)
  lastUnique : m.lastUnique = 0
  functionAttrs : m.functionAttrs = fun _ => .none
  personality : m.Holds personalityFunction ⟨personalityName target, .function (.get .i32 [])⟩
  typeIds : m.ImportedHandles ctx.typeIds "typeId" Constant.ptrToInt irModule.types.length
  tableOffsets : m.ImportedHandles ctx.tableOffsets "tableOffset" Constant.ptrToInt irModule.tables
  memoryOffsets :
    m.ImportedHandles ctx.memoryOffsets "memoryOffset" Constant.ptrToInt irModule.memories
  globals : m.ImportedHandles ctx.globals "global" id irModule.globals
  exceptionTypeInstances :
    m.ImportedHandles ctx.exceptionTypeInstances "exceptionType" id irModule.exceptionTypes
  moduleInstancePointer : m.Holds ctx.moduleInstancePointer ⟨"moduleInstance", .importedConstant⟩
  tableReferenceBias : ∃ c, ctx.tableReferenceBias = .ptrToInt c ∧
    m.Holds c ⟨"tableReferenceBias", .importedConstant⟩
  defaultTableOffset : ctx.defaultTableOffset = ctx.tableOffsets.head?.getD .null
  defaultMemoryOffset : ctx.defaultMemoryOffset = ctx.memoryOffsets.head?.getD .null
  functions : ctx.functions = []

/-- The constructor leaves every handle array empty; outside SEH it has created
`__cxa_begin_catch`. -/
theorem EmitModuleContext.new_empty (target : Target) :
    ∃ cxa m, EmitModuleContext.new target LLVMModule.empty =
        (⟨[], [], [], [], [], [], .null, .null, .null, .null, cxa⟩, m) ∧
      m.names = (if target.useWindowsSEH then [] else [Symbol.cxaBeginCatch]).map
        (Symbol.externalName target) ∧
      m.lastUnique = 0 ∧ m.functionAttrs = fun _ => .none := by
  unfold EmitModuleContext.new
  cases target.useWindowsSEH <;> exact ⟨_, _, rfl, rfl, rfl, rfl⟩

theorem emitExternalGlobals_spec {target : Target} {irModule : IR.Module}
    {ctx : EmitModuleContext} {personalityFunction : Constant} {m : LLVMModule}
    (h : emitExternalGlobals target irModule = (ctx, personalityFunction, m)) :
    ExternalGlobals target irModule ctx personalityFunction m := by
  have hnd : (externalSymbols target irModule).Nodup :=
    (emittedSymbols_nodup target irModule).of_append_left.of_append_left
  unfold externalSymbols at hnd
  have h₆ := hnd.of_append_left.of_append_left
  have h₅ := h₆.of_append_left
  have h₄ := h₅.of_append_left
  have h₃ := h₄.of_append_left
  have h₂ := h₃.of_append_left
  have h₁ := h₂.of_append_left
  obtain ⟨cxa, m₀, h₀, hn₀, hu₀, ha₀⟩ := EmitModuleContext.new_empty target
  simp only [emitExternalGlobals, createImportedConstant, h₀] at h
  obtain ⟨m₁, e₁, hn₁, hg₁, ha₁, hu₁⟩ :=
    LLVMModule.create_stage hn₀ h₁ (rfl : personalityName target = _) (.function (.get .i32 []))
  rw [e₁] at h; dsimp only at h
  obtain ⟨typeIds, m₂, e₂, hn₂, hp₂, hh₂, ha₂, hu₂⟩ := importConstants_spec true hn₁ h₂ fun _ => rfl
  rw [e₂] at h; dsimp only at h
  obtain ⟨tableOffsets, m₃, e₃, hn₃, hp₃, hh₃, ha₃, hu₃⟩ :=
    importConstants_spec true hn₂ h₃ fun _ => rfl
  rw [e₃] at h; dsimp only at h
  obtain ⟨memoryOffsets, m₄, e₄, hn₄, hp₄, hh₄, ha₄, hu₄⟩ :=
    importConstants_spec true hn₃ h₄ fun _ => rfl
  rw [e₄] at h; dsimp only at h
  obtain ⟨globals, m₅, e₅, hn₅, hp₅, hh₅, ha₅, hu₅⟩ := importConstants_spec false hn₄ h₅ fun _ => rfl
  rw [e₅] at h; dsimp only at h
  obtain ⟨exceptionTypeInstances, m₆, e₆, hn₆, hp₆, hh₆, ha₆, hu₆⟩ :=
    importConstants_spec false hn₅ h₆ fun _ => rfl
  rw [e₆] at h; dsimp only at h
  obtain ⟨m₇, e₇, hn₇, hg₇, ha₇, hu₇⟩ :=
    LLVMModule.create_stage hn₆ hnd.of_append_left (rfl : "moduleInstance" = _) .importedConstant
  rw [e₇] at h; dsimp only at h
  obtain ⟨m₈, e₈, hn₈, hg₈, ha₈, hu₈⟩ :=
    LLVMModule.create_stage hn₇ hnd (rfl : "tableReferenceBias" = _) .importedConstant
  rw [e₈] at h
  simp only [Prod.mk.injEq] at h
  obtain ⟨rfl, rfl, rfl⟩ := h
  have q₈ : m₇.globals <+: m₈.globals := ⟨_, hg₈.symm⟩
  have q₇ : m₆.globals <+: m₈.globals := (List.prefix_append _ _).trans (hg₇ ▸ q₈)
  have q₆ := hp₆.trans q₇
  have q₅ := hp₅.trans q₆
  have q₄ := hp₄.trans q₅
  have q₃ := hp₃.trans q₄
  have q₂ := hp₂.trans q₃
  exact {
    names := by
      rw [hn₈, externalSymbols]
    lastUnique := by rw [hu₈, hu₇, hu₆, hu₅, hu₄, hu₃, hu₂, hu₁, hu₀]
    functionAttrs := by rw [ha₈, ha₇, ha₆, ha₅, ha₄, ha₃, ha₂, ha₁, ha₀]
    personality := LLVMModule.Holds.mono ⟨_, rfl, by simp [hg₁]⟩ q₂
    typeIds := hh₂.mono q₃
    tableOffsets := hh₃.mono q₄
    memoryOffsets := hh₄.mono q₅
    globals := hh₅.mono q₆
    exceptionTypeInstances := hh₆.mono q₇
    moduleInstancePointer := LLVMModule.Holds.mono ⟨_, rfl, by simp [hg₇]⟩ q₈
    tableReferenceBias := ⟨_, rfl, _, rfl, by simp [hg₈]⟩
    defaultTableOffset := by cases tableOffsets <;> rfl
    defaultMemoryOffset := by cases memoryOffsets <;> rfl
    functions := rfl }

end ExternalGlobals

/-! ## `emitModule` -/

section EmitModule

/-- `emitModule` in its three stages. -/
theorem emitModule_eq_ok {target : Target} {irModule : IR.Module} {ctx : EmitModuleContext}
    {m : LLVMModule} (h : emitModule target irModule = .ok (ctx, m)) :
    ∃ ctx₀ personalityFunction m₀ functions m₁,
      emitExternalGlobals target irModule = (ctx₀, personalityFunction, m₀) ∧
      createFunctions irModule (List.replicate irModule.functions.size .null, m₀)
        irModule.functions.size = .ok (functions, m₁) ∧
      ctx = { ctx₀ with functions := functions } ∧
      emitFunctionDefs irModule ctx personalityFunction m₁ irModule.functions.defs.length = .ok m := by
  rcases e : emitExternalGlobals target irModule with ⟨ctx₀, personalityFunction, m₀⟩
  simp only [emitModule, e] at h
  obtain ⟨⟨functions, m₁⟩, h₁, h⟩ := bind_eq_ok h
  dsimp only at h
  obtain ⟨m₂, h₂, h⟩ := bind_eq_ok h
  simp only [Except.ok.injEq, Prod.mk.injEq] at h
  obtain ⟨rfl, rfl⟩ := h
  exact ⟨ctx₀, personalityFunction, m₀, functions, m₁, rfl, h₁, rfl, h₂⟩

/-- The function handles `createFunctions` leaves are distinct. -/
theorem FunctionsCreated.handle_inj {irModule : IR.Module} {m : LLVMModule} {functions : List Constant}
    {m' : LLVMModule} (fc : FunctionsCreated irModule m irModule.functions.size functions m')
    {i₁ i₂ function : Nat} (h₁ : functions[i₁]? = some (.global function))
    (h₂ : functions[i₂]? = some (.global function)) : i₁ = i₂ := by
  have hat : ∀ {i}, functions[i]? = some (.global function) → function = m.globals.length + i := by
    intro i hi
    have hlt : i < irModule.functions.size := fc.length ▸ (List.getElem?_eq_some_iff.1 hi).1
    rw [fc.handle i hlt] at hi
    simpa [eq_comm] using hi
  have := hat h₁
  have := hat h₂
  omega

/-- What each stage of a run of `emitModule` that returns leaves. -/
theorem emitModule_spec {target : Target} {irModule : IR.Module} {ctx : EmitModuleContext}
    {m : LLVMModule} (h : emitModule target irModule = .ok (ctx, m)) :
    ∃ ctx₀ personalityFunction m₀ functions m₁,
      ExternalGlobals target irModule ctx₀ personalityFunction m₀ ∧
      ctx = { ctx₀ with functions := functions } ∧
      FunctionsCreated irModule m₀ irModule.functions.size functions m₁ ∧
      DefsEmitted irModule ctx personalityFunction m₁ irModule.functions.defs.length m := by
  obtain ⟨ctx₀, p, m₀, functions, m₁, e, h₁, rfl, h₂⟩ := emitModule_eq_ok h
  have eg := emitExternalGlobals_spec e
  have hnd := emittedSymbols_nodup target irModule
  have fc := createFunctions_spec eg.names le_rfl hnd.of_append_left h₁
  have hm₁ : m₁.names = (externalSymbols target irModule ++
      (List.range irModule.functions.size).map (functionSymbol irModule)).map
        (Symbol.externalName target) := by
    rw [fc.names, eg.names]
    simp [Function.comp_def, functionName_eq target]
  exact ⟨ctx₀, p, m₀, functions, m₁, eg, rfl, fc,
    emitFunctionDefs_spec hm₁ (fun _ _ _ h₁ h₂ => by have := fc.handle_inj h₁ h₂; omega) hnd h₂⟩

/-- For a module whose type references are in range, `emitModule` reads no array
out of range. -/
theorem emitModule_ok (target : Target) {irModule : IR.Module} (hm : irModule.TypesInRange) :
    ∃ ctx m, emitModule target irModule = .ok (ctx, m) := by
  rcases e : emitExternalGlobals target irModule with ⟨ctx₀, p, m₀⟩
  have eg := emitExternalGlobals_spec e
  obtain ⟨⟨functions, m₁⟩, h₁⟩ := createFunctions_ok (List.replicate irModule.functions.size .null, m₀)
    fun i hi => functionTypeOf_ok hm hi
  have fc := createFunctions_spec eg.names le_rfl
    (emittedSymbols_nodup target irModule).of_append_left h₁
  obtain ⟨m₂, h₂⟩ := @emitFunctionDefs_ok irModule { ctx₀ with functions := functions } p m₁
    irModule.functions.defs.length fun j hj => by
      have hi : irModule.functions.imports.length + j < irModule.functions.size := by
        simp only [IR.FunctionIndexSpace.size]; omega
      have hk := hm.2 _ (List.getElem_mem hj)
      obtain ⟨c, hc, -⟩ := eg.typeIds.2 _ hk
      exact ⟨_, _, _, List.getElem?_eq_getElem hj, fc.handle _ hi, hc⟩
  refine ⟨{ ctx₀ with functions := functions }, m₂, ?_⟩
  simp only [emitModule, e, h₁, bind, Except.bind, h₂]

/-- `emitModule` returns exactly for the modules whose type references are in
range: what validation guarantees is all the emitter's unchecked reads rely on. -/
theorem emitModule_ok_iff (target : Target) (irModule : IR.Module) :
    (∃ ctx m, emitModule target irModule = .ok (ctx, m)) ↔ irModule.TypesInRange := by
  refine ⟨fun ⟨ctx, m, h⟩ => ?_, emitModule_ok target⟩
  obtain ⟨_, _, _, _, _, -, -, fc, -⟩ := emitModule_spec h
  have hty : ∀ i < irModule.functions.size, ∀ t, irModule.functions.getType i = some t →
      t.index < irModule.types.length := by
    intro i hi t ht
    obtain ⟨ft, hft, -⟩ := fc.global i hi
    obtain ⟨t', ht', hft'⟩ := functionTypeOf_eq_ok.1 hft
    rw [ht, Option.some.injEq] at ht'
    exact ht' ▸ (List.getElem?_eq_some_iff.1 hft').1
  refine ⟨fun imp himp => ?_, fun d hd => ?_⟩
  · obtain ⟨i, hi, rfl⟩ := List.getElem_of_mem himp
    exact hty i (by simp only [IR.FunctionIndexSpace.size]; omega) _
      (irModule.functions.getType_import hi)
  · obtain ⟨j, hj, rfl⟩ := List.getElem_of_mem hd
    exact hty _ (by simp only [IR.FunctionIndexSpace.size]; omega) _
      (irModule.functions.getType_def hj)

end EmitModule

/-! ## The handles match the IR indices -/

section Matches

/-- The context and the LLVM module against the IR module: each handle is the
address of the global value its IR index names. -/
structure EmitModuleContext.Matches (ctx : EmitModuleContext) (target : Target)
    (irModule : IR.Module) (m : LLVMModule) : Prop where
  typeIds : m.ImportedHandles ctx.typeIds "typeId" Constant.ptrToInt irModule.types.length
  tableOffsets : m.ImportedHandles ctx.tableOffsets "tableOffset" Constant.ptrToInt irModule.tables
  memoryOffsets :
    m.ImportedHandles ctx.memoryOffsets "memoryOffset" Constant.ptrToInt irModule.memories
  globals : m.ImportedHandles ctx.globals "global" id irModule.globals
  exceptionTypeInstances :
    m.ImportedHandles ctx.exceptionTypeInstances "exceptionType" id irModule.exceptionTypes
  moduleInstancePointer : m.Holds ctx.moduleInstancePointer ⟨"moduleInstance", .importedConstant⟩
  tableReferenceBias : ∃ c, ctx.tableReferenceBias = .ptrToInt c ∧
    m.Holds c ⟨"tableReferenceBias", .importedConstant⟩
  functions_length : ctx.functions.length = irModule.functions.size
  /-- Function `i` is named as lines 183–185 say, has the lowering of its type,
  and the wasm calling convention. -/
  functions : ∀ i < irModule.functions.size, ∃ id t ft,
    ctx.functions[i]? = some (.global id) ∧ irModule.functions.getType i = some t ∧
    irModule.types[t.index]? = some ft ∧
    m.globals[id]? = some ⟨if i ≥ irModule.functions.imports.length
        then getExternalName "functionDef" (i - irModule.functions.imports.length)
        else getExternalName "functionImport" i, .function (.asLLVMType ft .wasm)⟩ ∧
    (m.functionAttrs id).callingConv = .wasm
  /-- Definition `j` has the personality function and the prefix data
  `[ptrtoint(@functionDefInstance<j>), typeIds[defs[j].type.index]]`, and its
  signature was lowered from `types[defs[j].type.index]`. -/
  defs : ∀ j < irModule.functions.defs.length, ∃ id functionDef ft functionInstance typeId,
    ctx.functions[irModule.functions.imports.length + j]? = some (.global id) ∧
    irModule.functions.defs[j]? = some functionDef ∧
    irModule.types[functionDef.type.index]? = some ft ∧
    m.globals[id]? = some ⟨getExternalName "functionDef" j, .function (.asLLVMType ft .wasm)⟩ ∧
    m.Holds (m.functionAttrs id).personalityFn ⟨personalityName target, .function (.get .i32 [])⟩ ∧
    m.Holds functionInstance ⟨getExternalName "functionDefInstance" j, .importedConstant⟩ ∧
    ctx.typeIds[functionDef.type.index]? = some typeId ∧
    (m.functionAttrs id).prefixData = some [.ptrToInt functionInstance, typeId]

/-- For every module whose type references are in range, `emitModule` reads no
array out of range and leaves every handle where its IR index says. -/
theorem emitModule_matches (target : Target) (irModule : IR.Module)
    (hm : irModule.TypesInRange) :
    ∃ ctx m, emitModule target irModule = .ok (ctx, m) ∧ ctx.Matches target irModule m := by
  obtain ⟨ctx, m, h⟩ := emitModule_ok target hm
  refine ⟨ctx, m, h, ?_⟩
  obtain ⟨ctx₀, p, m₀, functions, m₁, eg, rfl, fc, de⟩ := emitModule_spec h
  have q₁ : m₁.globals <+: m.globals := by rw [de.globals]; exact List.prefix_append _ _
  have q₀ := fc.grows.trans q₁
  have hlt : ∀ {i}, i < irModule.functions.size → m₀.globals.length + i < m₁.globals.length :=
    fun hi => by rw [fc.length_globals]; omega
  have hfun : ∀ i < irModule.functions.size, ∃ ft, functionTypeOf irModule i = .ok ft ∧
      m.globals[m₀.globals.length + i]? =
        some ⟨functionName irModule i, .function (.asLLVMType ft .wasm)⟩ := fun i hi => by
    obtain ⟨ft, hft, hg⟩ := fc.global i hi
    exact ⟨ft, hft, by rw [de.globals, List.getElem?_append_left (hlt hi), hg]⟩
  refine ⟨eg.typeIds.mono q₀, eg.tableOffsets.mono q₀, eg.memoryOffsets.mono q₀,
    eg.globals.mono q₀, eg.exceptionTypeInstances.mono q₀, eg.moduleInstancePointer.mono q₀,
    ?_, fc.length, fun i hi => ?_, fun j hj => ?_⟩
  · obtain ⟨c, hc, hh⟩ := eg.tableReferenceBias
    exact ⟨c, hc, hh.mono q₀⟩
  · obtain ⟨ft, hft, hg⟩ := hfun i hi
    obtain ⟨t, ht, hty⟩ := functionTypeOf_eq_ok.1 hft
    exact ⟨_, t, ft, fc.handle i hi, ht, hty, hg, by rw [de.callingConv]; exact fc.callingConv i hi⟩
  · have hi : irModule.functions.imports.length + j < irModule.functions.size := by
      simp only [IR.FunctionIndexSpace.size]; omega
    obtain ⟨function, functionDef, typeId, hf, hd, ht, hp, hpre⟩ := de.defs j hj
    rw [fc.handle _ hi] at hf
    obtain rfl : m₀.globals.length + (irModule.functions.imports.length + j) = function := by
      simpa using hf
    obtain ⟨ft, hft, hg⟩ := hfun _ hi
    obtain ⟨t, htype, hty⟩ := functionTypeOf_eq_ok.1 hft
    have hdef := irModule.functions.getType_def hj
    have hfd : irModule.functions.defs[j] = functionDef := by
      simpa [List.getElem?_eq_getElem hj] using hd
    rw [htype, hfd] at hdef
    obtain rfl : t = functionDef.type := Option.some.inj hdef
    refine ⟨_, functionDef, ft, _, typeId, fc.handle _ hi, hd, hty, ?_, hp ▸ eg.personality.mono q₀,
      ⟨_, rfl, ?_⟩, ht, hpre⟩
    · rw [hg]; simp [functionName]
    · rw [de.globals, List.getElem?_append_right (Nat.le_add_right _ _)]
      simp [List.getElem?_range hj]

/-- A module with two types, one table, one imported function and three
definitions. -/
def sampleModule : IR.Module where
  types := [⟨[], []⟩, ⟨[.i32], [.i32, .i32]⟩]
  functions := ⟨[⟨⟨1⟩⟩], [⟨⟨0⟩⟩, ⟨⟨1⟩⟩, ⟨⟨1⟩⟩]⟩
  tables := 1
  memories := 0
  globals := 0
  exceptionTypes := 0

theorem emitModule_matches_sampleModule :
    sampleModule.TypesInRange ∧ ∃ ctx m, emitModule ⟨false, false⟩ sampleModule = .ok (ctx, m) ∧
      ctx.Matches ⟨false, false⟩ sampleModule m :=
  ⟨by decide, emitModule_matches ⟨false, false⟩ sampleModule (by decide)⟩

end Matches

/-! ## No symbol is renamed -/

/-- The names the emission requests are pairwise distinct, so a run that returns
leaves every global value under the name it was requested with, and LLVM's
renaming counter never moves. -/
theorem emitModule_names_distinct (target : Target) (irModule : IR.Module) :
    Function.Injective (Symbol.externalName target) ∧ (emittedSymbols target irModule).Nodup ∧
    ∀ ctx m, emitModule target irModule = .ok (ctx, m) →
      m.names = (emittedSymbols target irModule).map (Symbol.externalName target) ∧
      m.names.Nodup ∧ m.lastUnique = 0 := by
  refine ⟨externalName_injective target, emittedSymbols_nodup target irModule, fun ctx m h => ?_⟩
  obtain ⟨ctx₀, p, m₀, functions, m₁, eg, -, fc, de⟩ := emitModule_spec h
  have hnames : m.names = (emittedSymbols target irModule).map (Symbol.externalName target) := by
    rw [LLVMModule.names, de.globals, List.map_append, ← LLVMModule.names, fc.names, eg.names]
    simp [emittedSymbols, Function.comp_def, functionName_eq target, Symbol.externalName]
  refine ⟨hnames, ?_, by rw [de.lastUnique, fc.lastUnique, eg.lastUnique]⟩
  rw [hnames]
  exact (emittedSymbols_nodup target irModule).map (externalName_injective target)

theorem emitModule_names_distinct_sampleModule :
    ∃ ctx m, emitModule ⟨true, true⟩ sampleModule = .ok (ctx, m) ∧
      m.names = (emittedSymbols ⟨true, true⟩ sampleModule).map (Symbol.externalName ⟨true, true⟩) ∧
      m.names.Nodup ∧ m.lastUnique = 0 := by
  obtain ⟨ctx, m, h⟩ := emitModule_ok ⟨true, true⟩ (by decide : sampleModule.TypesInRange)
  exact ⟨ctx, m, h, (emitModule_names_distinct ⟨true, true⟩ sampleModule).2.2 ctx m h⟩

/-- Outside Windows, `sampleModule` gets these names, in creation order. -/
example : (emitModule ⟨false, false⟩ sampleModule).toOption.map (fun r => r.2.names) =
    some ["__cxa_begin_catch", "__gxx_personality_v0", "typeId0", "typeId1", "tableOffset0",
      "moduleInstance", "tableReferenceBias", "functionImport0", "functionDef0", "functionDef1",
      "functionDef2", "functionDefInstance0", "functionDefInstance1", "functionDefInstance2"] := by
  decide

/-! ## The default table and memory -/

/-- A loop of handles converted to integers leaves the first handle non-null, and
none when it ran no iteration. -/
theorem LLVMModule.ImportedHandles.head {m : LLVMModule} {handles : List Constant}
    {base : String} {count : Nat} (h : m.ImportedHandles handles base Constant.ptrToInt count) :
    (handles.head?.getD .null = .null ↔ count = 0) ∧
      (0 < count → handles[0]? = some (handles.head?.getD .null)) := by
  obtain ⟨hlen, hk⟩ := h
  cases handles with
  | nil => simp only [List.length_nil] at hlen; simp [← hlen]
  | cons c cs =>
    simp only [List.length_cons] at hlen
    obtain ⟨c', hc', -⟩ := hk 0 (by omega)
    simp only [List.getElem?_cons_zero, Option.some.injEq] at hc'
    simp only [List.head?_cons, Option.getD_some, List.getElem?_cons_zero, hc',
      reduceCtorEq, false_iff, implies_true, and_true]
    omega

/-- Lines 44–45, 141 and 152: `defaultTableOffset` is the handle of table 0 when
the module has a table, and null when it has none; likewise `defaultMemoryOffset`. -/
theorem emitModule_defaultOffsets {target : Target} {irModule : IR.Module}
    {ctx : EmitModuleContext} {m : LLVMModule} (h : emitModule target irModule = .ok (ctx, m)) :
    (ctx.defaultTableOffset = .null ↔ irModule.tables = 0) ∧
      (0 < irModule.tables → ctx.tableOffsets[0]? = some ctx.defaultTableOffset) ∧
    (ctx.defaultMemoryOffset = .null ↔ irModule.memories = 0) ∧
      (0 < irModule.memories → ctx.memoryOffsets[0]? = some ctx.defaultMemoryOffset) := by
  obtain ⟨ctx₀, p, m₀, functions, m₁, eg, rfl, -, -⟩ := emitModule_spec h
  simp only [eg.defaultTableOffset, eg.defaultMemoryOffset]
  exact ⟨eg.tableOffsets.head.1, eg.tableOffsets.head.2, eg.memoryOffsets.head.1,
    eg.memoryOffsets.head.2⟩

end Wavm.LLVMJIT
