import Mathlib.Data.Nat.Digits
import Mathlib.Tactic.IntervalCases

/-! # External names of the emitted symbols

`emitModule` names each external symbol `getExternalName(base, n)`: a base such
as `typeId` followed by the decimal digits of an index. A few symbols have fixed
names. This module shows that no two symbols get the same name:

* `toString` on `Nat` writes a non-empty string of decimal digits, and reading
  the digits back gives the number (`toString_digits`);
* a name splits in one way into a stem that does not end in a digit and a string
  of digits (`append_digits_inj`); `functionDef` and `functionDefInstance`
  differ at the character after `functionDef`, a digit in one and `I` in the
  other;
* so `Symbol.externalName` is injective (`externalName_injective`).
-/

namespace Wavm.LLVMJIT

/-! ## Decimal digits -/

/-- The number a string of decimal digits stands for. -/
def digitsValue (ds : List Char) : Nat :=
  ds.foldl (fun acc c => acc * 10 + (c.toNat - '0'.toNat)) 0

theorem digitsValue_append_singleton (ds : List Char) (c : Char) :
    digitsValue (ds ++ [c]) = digitsValue ds * 10 + (c.toNat - '0'.toNat) := by
  simp [digitsValue, List.foldl_append]

theorem digitChar_of_lt {k : Nat} (h : k < 10) :
    (Nat.digitChar k).isDigit ∧ (Nat.digitChar k).toNat - '0'.toNat = k := by
  interval_cases k <;> decide

/-- With enough fuel, `Nat.toDigitsCore 10` puts the decimal digits of `n`, a
non-empty string that reads back as `n`, in front of its accumulator. -/
theorem toDigitsCore_ten {f n : Nat} (hn : n < f) (ds : List Char) :
    ∃ l, Nat.toDigitsCore 10 f n ds = l ++ ds ∧ l ≠ [] ∧ (∀ c ∈ l, c.isDigit) ∧
      digitsValue l = n := by
  induction f generalizing n ds with
  | zero => omega
  | succ f ih =>
    have hd := digitChar_of_lt (Nat.mod_lt n (by omega : 10 > 0))
    simp only [Nat.toDigitsCore]
    split
    · refine ⟨[Nat.digitChar (n % 10)], rfl, by simp, by simpa using hd.1, ?_⟩
      simp only [digitsValue, List.foldl_cons, List.foldl_nil, hd.2]
      omega
    · obtain ⟨l, hl, -, hdig, hval⟩ := ih (n := n / 10) (by omega) (Nat.digitChar (n % 10) :: ds)
      refine ⟨l ++ [Nat.digitChar (n % 10)], by simp [hl], by simp, ?_, ?_⟩
      · intro c hc
        rcases List.mem_append.1 hc with hc | hc
        · exact hdig c hc
        · rw [List.mem_singleton.1 hc]; exact hd.1
      · rw [digitsValue_append_singleton, hval, hd.2]
        omega

/-- `toString n` is a non-empty string of decimal digits that reads back as `n`. -/
theorem toString_digits (n : Nat) :
    (toString n).toList ≠ [] ∧ (∀ c ∈ (toString n).toList, c.isDigit) ∧
      digitsValue (toString n).toList = n := by
  obtain ⟨l, hl, hne, hdig, hval⟩ := toDigitsCore_ten (Nat.lt_succ_self n) []
  have h : (toString n).toList = l := by
    rw [List.append_nil] at hl
    exact hl
  exact h ▸ ⟨hne, hdig, hval⟩

/-- `getExternalName(base, n)` (declared outside `src/`; the form the emitter's
names are read in): `base` followed by the decimal digits of `n`. -/
def getExternalName (base : String) (n : Nat) : String := base ++ toString n

/-! ## Splitting a name into a stem and digits -/

/-- A string of digits followed by a string that does not start with one splits in
one way. -/
theorem digits_append_inj {p : Char → Bool} :
    ∀ {d₁ d₂ s₁ s₂ : List Char}, (∀ c ∈ d₁, p c) → (∀ c ∈ d₂, p c) →
      (∀ c ∈ s₁.head?, ¬p c) → (∀ c ∈ s₂.head?, ¬p c) → d₁ ++ s₁ = d₂ ++ s₂ →
      d₁ = d₂ ∧ s₁ = s₂
  | [], [], _, _, _, _, _, _, h => ⟨rfl, h⟩
  | [], c :: _, _, _, _, hd₂, hs₁, _, h => by
    subst h
    exact absurd (hd₂ c (List.mem_cons_self _ _)) (hs₁ c rfl)
  | c :: _, [], _, _, hd₁, _, _, hs₂, h => by
    subst h
    exact absurd (hd₁ c (List.mem_cons_self _ _)) (hs₂ c rfl)
  | c :: d₁, c' :: d₂, _, _, hd₁, hd₂, hs₁, hs₂, h => by
    obtain ⟨rfl, h'⟩ := List.cons.inj h
    obtain ⟨rfl, rfl⟩ := digits_append_inj (fun x hx => hd₁ x (List.mem_cons_of_mem _ hx))
      (fun x hx => hd₂ x (List.mem_cons_of_mem _ hx)) hs₁ hs₂ h'
    exact ⟨rfl, rfl⟩

/-- A stem that does not end in a digit, followed by a string of digits, splits in
one way. -/
theorem append_digits_inj {s₁ s₂ d₁ d₂ : List Char}
    (hs₁ : ∀ c ∈ s₁.getLast?, ¬c.isDigit) (hs₂ : ∀ c ∈ s₂.getLast?, ¬c.isDigit)
    (hd₁ : ∀ c ∈ d₁, c.isDigit) (hd₂ : ∀ c ∈ d₂, c.isDigit) (h : s₁ ++ d₁ = s₂ ++ d₂) :
    s₁ = s₂ ∧ d₁ = d₂ := by
  have hr := congrArg List.reverse h
  simp only [List.reverse_append] at hr
  obtain ⟨hd, hs⟩ := digits_append_inj (p := Char.isDigit)
    (fun c hc => hd₁ c (List.mem_reverse.1 hc)) (fun c hc => hd₂ c (List.mem_reverse.1 hc))
    (by rwa [List.head?_reverse]) (by rwa [List.head?_reverse]) hr
  exact ⟨List.reverse_inj.1 hs, List.reverse_inj.1 hd⟩

/-! ## The symbols -/

/-- `USE_WINDOWS_SEH` and `_WIN32`, fixed when WAVM is built. -/
structure Target where
  win32 : Bool
  useWindowsSEH : Bool
  deriving DecidableEq, Repr

/-- The personality function of lines 111–116. -/
def personalityName (target : Target) : String :=
  if target.win32 then "__C_specific_handler" else "__gxx_personality_v0"

/-- The external symbols the constructor and `emitModule` ask LLVM for. -/
inductive Symbol where
  | typeId (i : Nat)
  | tableOffset (i : Nat)
  | memoryOffset (i : Nat)
  | global (i : Nat)
  | exceptionType (i : Nat)
  | functionImport (i : Nat)
  | functionDef (j : Nat)
  | functionDefInstance (j : Nat)
  | moduleInstance
  | tableReferenceBias
  | personality
  | cxaBeginCatch
  deriving DecidableEq, Repr

/-- The name each symbol is requested under, as the emitter writes it. -/
def Symbol.externalName (target : Target) : Symbol → String
  | .typeId i => getExternalName "typeId" i
  | .tableOffset i => getExternalName "tableOffset" i
  | .memoryOffset i => getExternalName "memoryOffset" i
  | .global i => getExternalName "global" i
  | .exceptionType i => getExternalName "exceptionType" i
  | .functionImport i => getExternalName "functionImport" i
  | .functionDef j => getExternalName "functionDef" j
  | .functionDefInstance j => getExternalName "functionDefInstance" j
  | .moduleInstance => "moduleInstance"
  | .tableReferenceBias => "tableReferenceBias"
  | .personality => personalityName target
  | .cxaBeginCatch => "__cxa_begin_catch"

/-- A name's stem: all of it but its trailing digits. -/
def Symbol.stem (target : Target) : Symbol → String
  | .typeId _ => "typeId"
  | .tableOffset _ => "tableOffset"
  | .memoryOffset _ => "memoryOffset"
  | .global _ => "global"
  | .exceptionType _ => "exceptionType"
  | .functionImport _ => "functionImport"
  | .functionDef _ => "functionDef"
  | .functionDefInstance _ => "functionDefInstance"
  | .moduleInstance => "moduleInstance"
  | .tableReferenceBias => "tableReferenceBias"
  | .personality => if target.win32 then "__C_specific_handler" else "__gxx_personality_v"
  | .cxaBeginCatch => "__cxa_begin_catch"

/-- A name's trailing digits. -/
def Symbol.digits (target : Target) : Symbol → List Char
  | .typeId i | .tableOffset i | .memoryOffset i | .global i | .exceptionType i
  | .functionImport i | .functionDef i | .functionDefInstance i => (toString i).toList
  | .personality => if target.win32 then [] else ['0']
  | .moduleInstance | .tableReferenceBias | .cxaBeginCatch => []

/-- The symbol a stem and its digits name. -/
def Symbol.ofStem (stem : String) (ds : List Char) : Option Symbol :=
  match stem with
  | "typeId" => some (.typeId (digitsValue ds))
  | "tableOffset" => some (.tableOffset (digitsValue ds))
  | "memoryOffset" => some (.memoryOffset (digitsValue ds))
  | "global" => some (.global (digitsValue ds))
  | "exceptionType" => some (.exceptionType (digitsValue ds))
  | "functionImport" => some (.functionImport (digitsValue ds))
  | "functionDef" => some (.functionDef (digitsValue ds))
  | "functionDefInstance" => some (.functionDefInstance (digitsValue ds))
  | "moduleInstance" => some .moduleInstance
  | "tableReferenceBias" => some .tableReferenceBias
  | "__C_specific_handler" | "__gxx_personality_v" => some .personality
  | "__cxa_begin_catch" => some .cxaBeginCatch
  | _ => none

theorem Symbol.externalName_eq (target : Target) (s : Symbol) :
    (s.externalName target).toList = (s.stem target).toList ++ s.digits target := by
  obtain ⟨win32, _⟩ := target
  cases s <;> try rfl
  cases win32 <;> rfl

theorem Symbol.stem_last (target : Target) (s : Symbol) :
    ∀ c ∈ (s.stem target).toList.getLast?, ¬c.isDigit := by
  cases s <;> simp only [stem]
  all_goals try split
  all_goals decide

theorem Symbol.digits_isDigit (target : Target) (s : Symbol) :
    ∀ c ∈ s.digits target, c.isDigit := by
  cases s <;> try exact (toString_digits _).2.1
  all_goals simp only [digits]
  all_goals try split
  all_goals decide

theorem Symbol.ofStem_stem (target : Target) (s : Symbol) :
    Symbol.ofStem (s.stem target) (s.digits target) = some s := by
  obtain ⟨win32, _⟩ := target
  cases s <;> simp only [stem, digits]
  case typeId i | tableOffset i | memoryOffset i | global i | exceptionType i | functionImport i
      | functionDef i | functionDefInstance i =>
    -- the digits of an index read back as the index
    conv_rhs => rw [← (toString_digits i).2.2]
    rfl
  case personality => cases win32 <;> rfl
  all_goals rfl

/-- No two symbols are requested under one name. -/
theorem externalName_injective (target : Target) :
    Function.Injective (Symbol.externalName target) := by
  intro a b h
  have hl := congrArg String.toList h
  rw [Symbol.externalName_eq, Symbol.externalName_eq] at hl
  obtain ⟨hs, hd⟩ := append_digits_inj (Symbol.stem_last target a) (Symbol.stem_last target b)
    (Symbol.digits_isDigit target a) (Symbol.digits_isDigit target b) hl
  have := Symbol.ofStem_stem target a
  rw [String.ext hs, hd, Symbol.ofStem_stem] at this
  exact (Option.some.inj this).symm

end Wavm.LLVMJIT
