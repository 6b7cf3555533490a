import Mathlib.Data.List.Basic

/-! # The Wasm IR as the module emitter reads it

`LLVMJIT::emitModule` reads a validated `IR::Module`: its function types, the
function index space split into imports and definitions, and the number of
declared tables, memories, globals and exception types. `IR::Module` itself is
declared outside `src/`; only the fields `emitModule` reads are kept here.

* `FunctionIndexSpace.getType` is the one piece with behaviour: index `i` names
  an import when `i < imports.size()` and definition `i - imports.size()`
  otherwise (spec §3, §4.1 step 5).
* `Module.TypesInRange` is what validation guarantees and what the emitter's
  unchecked `types[...]` and `typeIds[...]` reads rely on.
-/

namespace Wavm.IR

/-- Wasm value types; `EmitModuleContext` gives each a debug type. -/
inductive ValueType where
  | any | i32 | i64 | f32 | f64 | v128 | anyref | anyfunc | nullref
  deriving DecidableEq, Repr

/-- A function signature: the result tuple and the parameter tuple. -/
structure FunctionType where
  results : List ValueType
  params : List ValueType
  deriving DecidableEq, Repr

/-- A reference to an entry of `Module.types`. -/
structure IndexedFunctionType where
  index : Nat
  deriving DecidableEq, Repr

/-- An imported function; only its type is read by the emitter. -/
structure FunctionImport where
  type : IndexedFunctionType
  deriving DecidableEq, Repr

/-- A function definition; its locals and code are read only by the body
emitter, which this development does not model. -/
structure FunctionDef where
  type : IndexedFunctionType
  deriving DecidableEq, Repr

/-- The function index space: imports first, then definitions. -/
structure FunctionIndexSpace where
  imports : List FunctionImport
  defs : List FunctionDef
  deriving DecidableEq, Repr

namespace FunctionIndexSpace

/-- `functions.size()`. -/
def size (fs : FunctionIndexSpace) : Nat := fs.imports.length + fs.defs.length

/-- Modelled from the spec: `functions.getType(i)` (declared outside `src/`)
returns the type of import `i` when `i < imports.size()` and of definition
`i - imports.size()` otherwise. -/
def getType (fs : FunctionIndexSpace) (i : Nat) : Option IndexedFunctionType :=
  if i < fs.imports.length then (fs.imports[i]?).map (·.type)
  else (fs.defs[i - fs.imports.length]?).map (·.type)

theorem getType_import (fs : FunctionIndexSpace) {i : Nat} (h : i < fs.imports.length) :
    fs.getType i = some fs.imports[i].type := by
  simp [getType, h]

/-- Definition `j` sits at index `imports.size() + j` of the index space. -/
theorem getType_def (fs : FunctionIndexSpace) {j : Nat} (h : j < fs.defs.length) :
    fs.getType (fs.imports.length + j) = some fs.defs[j].type := by
  simp [getType, h]

end FunctionIndexSpace

/-- The parts of `IR::Module` that `emitModule` reads. Tables, memories,
globals and exception types enter only through their count. -/
structure Module where
  types : List FunctionType
  functions : FunctionIndexSpace
  tables : Nat
  memories : Nat
  globals : Nat
  exceptionTypes : Nat
  deriving DecidableEq, Repr

/-- Every function's type reference is in range, as validation guarantees. -/
def Module.TypesInRange (m : Module) : Prop :=
  (∀ imp ∈ m.functions.imports, imp.type.index < m.types.length) ∧
  ∀ d ∈ m.functions.defs, d.type.index < m.types.length

instance (m : Module) : Decidable m.TypesInRange :=
  inferInstanceAs (Decidable (_ ∧ _))

/-- In a module whose type references are in range, every index of the
function index space has a type, and it is in range. -/
theorem Module.TypesInRange.getType {m : Module} (hm : m.TypesInRange) {i : Nat}
    (hi : i < m.functions.size) :
    ∃ t, m.functions.getType i = some t ∧ t.index < m.types.length := by
  by_cases h : i < m.functions.imports.length
  · exact ⟨_, m.functions.getType_import h, hm.1 _ (List.getElem_mem h)⟩
  · have hj : i - m.functions.imports.length < m.functions.defs.length := by
      simp only [FunctionIndexSpace.size] at hi; omega
    refine ⟨_, ?_, hm.2 _ (List.getElem_mem hj)⟩
    simpa [show m.functions.imports.length + (i - m.functions.imports.length) = i by omega]
      using m.functions.getType_def hj

end Wavm.IR
